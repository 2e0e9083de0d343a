import Bib.Audit.Redact
import Bib.Lib.Marks

/-!
# Bib.Audit.RedactArgs

**The arguments that are redacted** (`redactArgs` and `findSensitivePositions` in
`storage/audit/redact.go`), for two kinds of queries: `INSERT INTO t (columns) VALUES
(placeholders)`, and conditions or assignments `column = placeholder` with any text between them.

In an `INSERT` the argument of a column is found only behind a placeholder `$N` without a cast
(`mem_insertPositions`): `?` and `$N::type` are read as no placeholder.
-/

namespace Bib.Audit.Redact

open Bib.Lib Bib.Lib.Regex List

/-! ### Statements -/

/-- A placeholder: `$N` with or without a cast, or a question mark. -/
inductive Placeholder
  | dollar (digits : Text) (cast : Option Text)
  | question

def castText : Option Text → Text
  | none => []
  | some type => ':' :: ':' :: type

def Placeholder.text : Placeholder → Text
  | dollar digits cast => '$' :: (digits ++ castText cast)
  | question => ['?']

def number (digits : Text) : Nat := digits.foldl (fun n c => n * 10 + (c.toNat - 48)) 0

/-- A character that neither separates nor groups. -/
def isPlain (c : Char) : Bool :=
  c ≠ '=' && c ≠ '$' && c ≠ '?' && c ≠ ',' && c ≠ '(' && c ≠ ')'

/-- The number of a parameter counts from 1 and is an `int`; a type has no parentheses. -/
def Placeholder.Ok : Placeholder → Prop
  | dollar digits cast =>
    digits ≠ [] ∧ (∀ c ∈ digits, c.isDigit) ∧ 0 < number digits ∧
      number digits < 9223372036854775808 ∧
      ∀ type ∈ cast, (∀ c ∈ type, isPlain c) ∧ ∀ c ∈ type.getLast?, isWhite c = false
  | question => True

def Placeholder.isDollar : Placeholder → Bool
  | dollar .. => true
  | question => false

/-- A column with the placeholder of its value, and the index of the argument: a question mark has
the index of its place among them. -/
def boundTo (column : Text) (placeholder : Placeholder) (place : Nat) : Text × Nat :=
  match placeholder with
  | .dollar digits _ => (column, number digits - 1)
  | .question => (column, place)

structure Padding where
  (before after : Text)
  before_space : ∀ c ∈ before, isSpace c
  after_space : ∀ c ∈ after, isSpace c

def Padding.around (pad : Padding) (text : Text) : Text := pad.before ++ text ++ pad.after

structure Cell where
  column : Text
  columnPad : Padding
  placeholder : Placeholder
  valuePad : Padding
  column_ok : IsIdentifier column
  placeholder_ok : placeholder.Ok

abbrev Gap (least : Nat) := { gap : Text // least ≤ gap.length ∧ ∀ c ∈ gap, isSpace c }

abbrev Keyword (word : String) := { text : Text // text.map Char.toLower = word.toList.map Char.toLower }

/-- `INSERT INTO table (columns) VALUES (placeholders)`. -/
structure Insert where
  insert : Keyword "INSERT"
  gap₁ : Gap 1
  into : Keyword "INTO"
  gap₂ : Gap 1
  table : Text
  (gap₃ gap₄ : Gap 0)
  values : Keyword "VALUES"
  gap₅ : Gap 0
  cells : List Cell
  table_ok : IsIdentifier table
  cells_ne : cells ≠ []

def columnsText (cells : List Cell) : Text :=
  [','].intercalate (cells.map fun c => c.columnPad.around c.column)

def valuesText (cells : List Cell) : Text :=
  [','].intercalate (cells.map fun c => c.valuePad.around c.placeholder.text)

def Insert.text (s : Insert) : Text :=
  s.insert.val ++ (s.gap₁.val ++ (s.into.val ++ (s.gap₂.val ++ (s.table ++ (s.gap₃.val ++
    ('(' :: (columnsText s.cells ++ (')' :: (s.gap₄.val ++ (s.values.val ++ (s.gap₅.val ++
      ('(' :: (valuesText s.cells ++ [')'])))))))))))))

/-- `column = placeholder`, with the text between the condition before and this one. -/
structure Condition where
  (before column : Text)
  gap : Gap 0
  gap' : Gap 0
  placeholder : Placeholder
  before_plain : ∀ c ∈ before, c ≠ '=' ∧ c ≠ '$' ∧ c ≠ '?'
  before_last : ∀ c ∈ before.getLast?, isWordFold c = false
  column_ok : IsIdentifier column
  placeholder_ok : placeholder.Ok

def conditionsText : List Condition → Text → Text
  | [], after => after
  | c :: conditions, after =>
    c.before ++ (c.column ++ (c.gap.val ++ ('=' :: (c.gap'.val ++ (c.placeholder.text ++
      conditionsText conditions after)))))

/-- Conditions or assignments. A digit is not the first thing after a placeholder. -/
structure Conditions where
  conditions : List Condition
  after : Text
  separated : ∀ c ∈ conditions.tail, c.before ≠ [] ∧ ∀ d ∈ c.before.head?, d.isDigit = false
  after_plain : ∀ c ∈ after, c ≠ '=' ∧ c ≠ '$' ∧ c ≠ '?'
  after_head : ∀ d ∈ after.head?, d.isDigit = false

/-- The statements of interest; the placeholders are all of one kind. -/
inductive Statement
  | insert (s : Insert)
      (uniform : (∀ c ∈ s.cells, c.placeholder.isDollar) ∨ ∀ c ∈ s.cells, c.placeholder = .question)
  | conditions (s : Conditions)
      (uniform : (∀ c ∈ s.conditions, c.placeholder.isDollar) ∨
        ∀ c ∈ s.conditions, c.placeholder = .question)

def Statement.text : Statement → Text
  | insert s _ => s.text
  | conditions s _ => conditionsText s.conditions s.after

def Statement.bound : Statement → List (Text × Nat)
  | insert s _ => s.cells.zipIdx.map fun c => boundTo c.1.column c.1.placeholder c.2
  | conditions s _ => s.conditions.zipIdx.map fun c => boundTo c.1.column c.1.placeholder c.2

section Spec

variable (u : Unicode) (r : Redactor)

/-- **What should come out**: the arguments of sensitive columns are replaced, the others not. -/
def Statement.expected {A : Type} (s : Statement) (args : List (Arg A)) : List (Arg A) :=
  args.mapIdx fun i arg =>
    if s.bound.any fun b => b.2 = i && isSensitiveField u r b.1 then .text r.parameterPlaceholder
    else arg

/-- Every sensitive column of an `INSERT` has its argument at a place where a sensitive column has a
placeholder `$N` without a cast. -/
def Statement.Recognised : Statement → Prop
  | .insert s uniform => ∀ b ∈ (Statement.insert s uniform).bound, isSensitiveField u r b.1 →
      ∃ c ∈ s.cells, isSensitiveField u r c.column ∧
        ∃ digits, c.placeholder = .dollar digits none ∧ number digits - 1 = b.2
  | .conditions .. => True

end Spec

/-! ### Positions and arguments -/

section Args

variable {u : Unicode} {r : Redactor} {A : Type}

theorem foldl_set_eq_mapIdx (a : Arg A) (positions : List Int) (args : List (Arg A)) :
    positions.foldl (fun redacted (pos : Int) =>
      if 0 ≤ pos ∧ pos < redacted.length then redacted.set pos.toNat a else redacted) args =
      args.mapIdx fun i arg => if (i : Int) ∈ positions then a else arg := by
  induction positions generalizing args with
  | nil =>
    refine ext_getElem? fun i => ?_
    simp
  | cons pos positions ih =>
    rw [foldl_cons, ih]
    refine ext_getElem? fun i => ?_
    simp only [getElem?_mapIdx, mem_cons]
    by_cases hp : 0 ≤ pos ∧ pos < args.length
    · rw [if_pos hp]
      by_cases heq : pos.toNat = i
      · have hi : (i : Int) = pos := by omega
        have hlt : i < args.length := by omega
        simp [heq, hi, hlt]
      · have hi : (i : Int) ≠ pos := by omega
        simp [heq, hi]
    · rw [if_neg hp]
      cases hg : args[i]? with
      | none => rfl
      | some arg =>
        have hlt : i < args.length := (List.getElem?_eq_some_iff.mp hg).1
        have hi : (i : Int) ≠ pos := by omega
        simp [hi]

theorem redactArgs_eq (query : Text) (args : List (Arg A)) :
    redactArgs u r query args = args.mapIdx fun i arg =>
      if (i : Int) ∈ findSensitivePositions u r query then .text r.parameterPlaceholder else arg :=
  foldl_set_eq_mapIdx _ _ _

/-- The right arguments are replaced exactly if the right positions are found. -/
theorem redactArgs_eq_expected_iff (s : Statement) :
    (∀ args : List (Arg A), redactArgs u r s.text args = s.expected u r args) ↔
      ∀ i : Nat, (i : Int) ∈ findSensitivePositions u r s.text ↔
        ∃ b ∈ s.bound, b.2 = i ∧ isSensitiveField u r b.1 := by
  have ha : ∀ i : Nat, (s.bound.any fun b => b.2 = i && isSensitiveField u r b.1) = true ↔
      ∃ b ∈ s.bound, b.2 = i ∧ isSensitiveField u r b.1 := by simp
  constructor
  · intro h i
    -- an argument that is not the placeholder itself
    let arg : Arg A := .text (r.parameterPlaceholder ++ ['x'])
    have hne : (Arg.text r.parameterPlaceholder : Arg A) ≠ arg := by
      intro heq
      have hlen := congrArg length (Arg.text.inj heq)
      simp at hlen
    have hi := congrArg (·[i]?) (h (replicate (i + 1) arg))
    simp only [redactArgs_eq, Statement.expected, getElem?_mapIdx, getElem?_replicate,
      Nat.lt_succ_self, if_true, Option.map_some, Option.some.injEq] at hi
    rw [← ha]
    split_ifs at hi with hmem hb hb
    · exact iff_of_true hmem hb
    · exact absurd hi hne
    · exact absurd hi.symm hne
    · exact iff_of_false hmem hb
  · intro h args
    rw [redactArgs_eq]
    refine mapIdx_eq_mapIdx_iff.mpr fun i _ => ?_
    simp only [h i, ha]

end Args

/-! ### Numbers -/

theorem le_foldl_number (digits : Text) (n : Nat) : n ≤ digits.foldl (fun n c => n * 10 + (c.toNat - 48)) n := by
  induction digits generalizing n with
  | nil => exact Nat.le_refl _
  | cons c digits ih =>
    have := ih (n * 10 + (c.toNat - 48))
    rw [foldl_cons]
    omega

theorem toInt_foldl (digits : Text) {acc : Int64} {n : Nat} (ha : acc.toInt = n)
    (h : digits.foldl (fun n c => n * 10 + (c.toNat - 48)) n < 9223372036854775808) :
    (digits.foldl (fun n c => n * 10 + Int64.ofNat (c.toNat - 48)) acc).toInt =
      digits.foldl (fun n c => n * 10 + (c.toNat - 48)) n := by
  induction digits generalizing acc n with
  | nil => exact ha
  | cons c digits ih =>
    rw [foldl_cons] at *
    refine ih ?_ h
    have hle := le_foldl_number digits (n * 10 + (c.toNat - 48))
    have hd : (Int64.ofNat (c.toNat - 48)).toInt = ((c.toNat - 48 : Nat) : Int) :=
      Int64.toInt_ofNat_of_lt (by omega)
    have ht : (10 : Int64).toInt = 10 := rfl
    rw [Int64.toInt_add, Int64.toInt_mul, ht]
    simp only [Int.bmod_def]
    omega

theorem paramIndex_eq {digits : Text} (hd : ∀ c ∈ digits, c.isDigit) (hp : 0 < number digits)
    (hlt : number digits < 9223372036854775808) :
    paramIndex digits = ((number digits - 1 : Nat) : Int) := by
  have hall : digits.all Char.isDigit = true := all_eq_true.mpr hd
  have hv : (digits.foldl (fun n c => n * 10 + Int64.ofNat (c.toNat - 48)) 0).toInt =
      number digits := toInt_foldl digits rfl hlt
  have hone : (1 : Int64).toInt = 1 := rfl
  rw [paramIndex, parsePositiveInt, if_pos hall]
  rw [Int64.toInt_sub, hv]
  simp only [Int.bmod_def]
  omega

theorem paramIndex_cast (digits type : Text) : paramIndex (digits ++ ':' :: type) = -1 := by
  have hall : (digits ++ ':' :: type).all Char.isDigit = false := by
    have hc : ':'.isDigit = false := rfl
    simp [hc]
  rw [paramIndex, parsePositiveInt, hall]
  rfl

/-! ### Lists between parentheses -/

variable {c : Char} {p : Char → Bool} {text : Text}

theorem isWhite_of_isSpace (h : isSpace c) : isWhite c := by
  simp [isWhite, h]

theorem toNat_of_isWord (h : isWord c) : 48 ≤ c.toNat ∧ c.toNat ≤ 122 := by
  have h0 : '0'.val.toNat = 48 := rfl
  have h9 : '9'.val.toNat = 57 := rfl
  have hA : 'A'.val.toNat = 65 := rfl
  have hZ : 'Z'.val.toNat = 90 := rfl
  have ha : 'a'.val.toNat = 97 := rfl
  have hz : 'z'.val.toNat = 122 := rfl
  simp only [isWord, Char.isAlphanum, Char.isAlpha, Char.isUpper, Char.isLower, Char.isDigit,
    ge_iff_le, UInt32.le_iff_toNat_le, Bool.or_eq_true, Bool.and_eq_true, decide_eq_true_eq] at h
  rw [Char.toNat]
  rcases h with h | rfl
  · omega
  · decide

theorem isWhite_eq_false (hs : isSpace c = false) (h : 33 ≤ c.toNat ∧ c.toNat ≤ 126) : isWhite c = false := by
  simp only [isWhite, hs, Bool.false_or, Bool.or_eq_false_iff, Bool.and_eq_false_iff,
    decide_eq_false_iff_not]
  omega

theorem isWhite_of_isWord (h : isWord c) : isWhite c = false := by
  have hr := toNat_of_isWord h
  exact isWhite_eq_false (not_isSpace_of_isWordFold (isWordFold_of_isWord h)) (by omega)

theorem dropWhile_append_of_head {run rest : Text} (hr : ∀ c ∈ run, p c)
    (hrest : ∀ c ∈ rest.head?, p c = false) : (run ++ rest).dropWhile p = rest := by
  rw [dropWhile_append_of_pos hr]
  cases rest with
  | nil => rfl
  | cons c rest => simp [hrest c rfl]

theorem trim_append {before after : Text} (hb : ∀ c ∈ before, p c)
    (ha : ∀ c ∈ after, p c) (hne : text ≠ []) (hh : ∀ c ∈ text.head?, p c = false)
    (hlast : ∀ c ∈ text.getLast?, p c = false) : trim p (before ++ text ++ after) = text := by
  obtain ⟨c, text, rfl⟩ := exists_cons_of_ne_nil hne
  have hf : (before ++ (c :: text ++ after)).dropWhile p = c :: text ++ after :=
    dropWhile_append_of_head hb (by simpa using hh)
  have hba : (after.reverse ++ (c :: text).reverse).dropWhile p = (c :: text).reverse :=
    dropWhile_append_of_head (by simpa using ha) (by rwa [head?_reverse])
  rw [trim, append_assoc, hf, rdropWhile, reverse_append, hba, reverse_reverse]

theorem trim_eq_self (hne : text ≠ [])
    (hh : ∀ c ∈ text.head?, p c = false) (hlast : ∀ c ∈ text.getLast?, p c = false) :
    trim p text = text := by
  have ht : trim p ([] ++ text ++ []) = text := trim_append (by simp) (by simp) hne hh hlast
  simpa using ht

theorem Padding.trimSpace_around (pad : Padding) {text : Text} (hne : text ≠ [])
    (hh : ∀ c ∈ text.head?, isWhite c = false) (hlast : ∀ c ∈ text.getLast?, isWhite c = false) :
    trimSpace (pad.around text) = text :=
  trim_append (fun c hc => isWhite_of_isSpace (pad.before_space c hc))
    (fun c hc => isWhite_of_isSpace (pad.after_space c hc)) hne hh hlast

theorem Padding.mem_around {pad : Padding} (h : c ∈ pad.around text) : isSpace c ∨ c ∈ text := by
  rcases mem_append.mp h with h | h
  · rcases mem_append.mp h with h | h
    · exact .inl (pad.before_space c h)
    · exact .inr h
  · exact .inl (pad.after_space c h)

theorem isPlain_of_isWord (h : isWord c) : isPlain c := by
  simp only [isPlain, Bool.and_eq_true, decide_eq_true_eq]
  and_intros <;> exact ne_of_isWordFold (isWordFold_of_isWord h) (by decide)

theorem isPlain_of_isSpace (h : isSpace c) : isPlain c := by
  simp only [isPlain, Bool.and_eq_true, decide_eq_true_eq]
  and_intros <;> exact ne_of_isSpace h (by decide)

theorem isWord_of_isDigit (h : c.isDigit) : isWord c := by
  simp [isWord, Char.isAlphanum, h]

theorem Placeholder.mem_text {p : Placeholder} (hp : p.Ok) {c : Char} (h : c ∈ p.text) :
    c = '$' ∨ c = '?' ∨ isPlain c := by
  cases p with
  | question => exact .inr (.inl (mem_singleton.mp h))
  | dollar digits cast =>
    obtain ⟨-, hd, -, -, hc⟩ := hp
    rcases mem_cons.mp h with rfl | h
    · exact .inl rfl
    rcases mem_append.mp h with h | h
    · exact .inr (.inr (isPlain_of_isWord (isWord_of_isDigit (hd c h))))
    · cases cast with
      | none => cases h
      | some type =>
        simp only [castText, mem_cons] at h
        rcases h with rfl | rfl | h
        · exact .inr (.inr (by decide))
        · exact .inr (.inr (by decide))
        · exact .inr (.inr ((hc type rfl).1 c h))

theorem Placeholder.head_text (p : Placeholder) : ∀ c ∈ p.text.head?, isWhite c = false := by
  intro c hc
  cases p <;>
  · cases hc
    decide

theorem Placeholder.text_ne_nil (p : Placeholder) : p.text ≠ [] := by
  cases p <;> simp [Placeholder.text]

theorem Placeholder.getLast_text {p : Placeholder} (hp : p.Ok) : ∀ c ∈ p.text.getLast?, isWhite c = false := by
  intro c hc
  cases p with
  | question =>
    cases hc
    decide
  | dollar digits cast =>
    obtain ⟨hne, hdi, -, -, hca⟩ := hp
    rw [Placeholder.text, ← cons_append, getLast?_append] at hc
    cases cast with
    | none =>
      rw [castText, getLast?_nil, getLast?_cons_of_ne_nil hne] at hc
      exact isWhite_of_isWord (isWord_of_isDigit (hdi c (mem_of_getLast? hc)))
    | some type =>
      rw [castText] at hc
      cases ht : type.getLast? with
      | none =>
        rw [getLast?_eq_none_iff.mp ht] at hc
        cases hc
        decide
      | some d =>
        have hd := (hca type rfl).2 d ht
        rw [getLast?_cons, getLast?_cons, ht] at hc
        cases hc
        exact hd

/-- Only a placeholder `$N` without a cast has a position. -/
theorem extractParamPosition_text {p : Placeholder} (hp : p.Ok) {i : Int} (hi : 0 ≤ i) :
    extractParamPosition p.text = i ↔
      ∃ digits, p = .dollar digits none ∧ ((number digits - 1 : Nat) : Int) = i := by
  have ht : trimSpace p.text = p.text :=
    trim_eq_self p.text_ne_nil p.head_text (Placeholder.getLast_text hp)
  rw [extractParamPosition, ht]
  cases p with
  | question =>
    have hh : (Placeholder.question.text).head? ≠ some '$' := by decide
    simp only [hh, if_false]
    constructor
    · intro h
      omega
    · intro h
      obtain ⟨digits, h, -⟩ := h
      cases h
  | dollar digits cast =>
    obtain ⟨-, hd, hpo, hlt, -⟩ := hp
    simp only [Placeholder.text, head?_cons, if_true, drop_succ_cons, drop_zero]
    cases cast with
    | none =>
      rw [castText, append_nil, paramIndex_eq hd hpo hlt]
      constructor
      · intro h
        exact ⟨digits, rfl, h⟩
      · intro h
        obtain ⟨digits', heq, h⟩ := h
        cases heq
        exact h
    | some type =>
      rw [castText, paramIndex_cast]
      constructor
      · intro h
        omega
      · intro h
        obtain ⟨digits', heq, -⟩ := h
        cases heq

section Lists

variable {cells : List Cell} {cell : Cell} {c : Char}

theorem Cell.mem_column (h : c ∈ cell.columnPad.around cell.column) : isPlain c := by
  rcases Padding.mem_around h with h | h
  · exact isPlain_of_isSpace h
  · exact isPlain_of_isWord (cell.column_ok.2 c h)

theorem Cell.mem_value (h : c ∈ cell.valuePad.around cell.placeholder.text) : c = '$' ∨ c = '?' ∨ isPlain c := by
  rcases Padding.mem_around h with h | h
  · exact .inr (.inr (isPlain_of_isSpace h))
  · exact Placeholder.mem_text cell.placeholder_ok h

theorem filter_map_splitOn {f g : Cell → Text} {clean : Text → Text} (hne : cells ≠ [])
    (hco : ∀ cell ∈ cells, ',' ∉ f cell) (hc : ∀ cell ∈ cells, clean (f cell) = g cell)
    (hg : ∀ cell ∈ cells, g cell ≠ []) :
    ((([','].intercalate (cells.map f)).splitOn ',').map clean).filter (· ≠ []) = cells.map g := by
  have hs : ([','].intercalate (cells.map f)).splitOn ',' = cells.map f := by
    refine splitOn_intercalate ',' ?_ (by simpa using hne)
    intro piece hp
    obtain ⟨cell, hce, rfl⟩ := mem_map.mp hp
    exact hco cell hce
  have hm : (cells.map f).map clean = cells.map g := by
    rw [map_map]
    exact map_congr_left hc
  rw [hs, hm, filter_eq_self]
  intro piece hp
  obtain ⟨cell, hce, rfl⟩ := mem_map.mp hp
  simpa using hg cell hce

theorem parseColumnList_columnsText (hne : cells ≠ []) :
    parseColumnList (columnsText cells) = cells.map Cell.column := by
  refine filter_map_splitOn hne ?_ ?_ fun cell _ => cell.column_ok.1
  · intro cell _ hco
    exact absurd (Cell.mem_column hco) (by decide)
  · intro cell _
    have hw : ∀ c ∈ cell.column, isWhite c = false := fun c hc =>
      isWhite_of_isWord (cell.column_ok.2 c hc)
    have hq : ∀ c ∈ cell.column, (decide (c = '"') || decide (c = '\'')) = false := by
      intro c hc
      have hf := isWordFold_of_isWord (cell.column_ok.2 c hc)
      simp [ne_of_isWordFold hf (d := '"') (by decide), ne_of_isWordFold hf (d := '\'') (by decide)]
    rw [cell.columnPad.trimSpace_around cell.column_ok.1
      (fun c hc => hw c (mem_of_mem_head? hc))
      (fun c hc => hw c (mem_of_getLast? hc))]
    exact trim_eq_self cell.column_ok.1 (fun c hc => hq c (mem_of_mem_head? hc))
      (fun c hc => hq c (mem_of_getLast? hc))

theorem parseValueList_valuesText (hne : cells ≠ []) :
    parseValueList (valuesText cells) = cells.map fun c => c.placeholder.text := by
  refine filter_map_splitOn hne ?_ ?_ fun cell _ => cell.placeholder.text_ne_nil
  · intro cell _ hc
    exact absurd (Cell.mem_value hc) (by decide)
  · intro cell _
    exact cell.valuePad.trimSpace_around cell.placeholder.text_ne_nil cell.placeholder.head_text
      (Placeholder.getLast_text cell.placeholder_ok)

theorem columnsText_ne_nil (hne : cells ≠ []) : columnsText cells ≠ [] := by
  intro hn
  have hp := parseColumnList_columnsText hne
  rw [hn] at hp
  exact hne (map_eq_nil_iff.mp hp.symm)

theorem valuesText_ne_nil (hne : cells ≠ []) : valuesText cells ≠ [] := by
  intro hn
  have hp := parseValueList_valuesText hne
  rw [hn] at hp
  exact hne (map_eq_nil_iff.mp hp.symm)

theorem mem_columnsText (h : c ∈ columnsText cells) : c = ',' ∨ isPlain c := by
  rcases mem_of_mem_intercalate h with rfl | ⟨piece, hp, hc⟩
  · exact .inl rfl
  · obtain ⟨cell, -, rfl⟩ := mem_map.mp hp
    exact .inr (Cell.mem_column hc)

theorem mem_valuesText (h : c ∈ valuesText cells) : c = ',' ∨ c = '$' ∨ c = '?' ∨ isPlain c := by
  rcases mem_of_mem_intercalate h with rfl | ⟨piece, hp, hc⟩
  · exact .inl rfl
  · obtain ⟨cell, -, rfl⟩ := mem_map.mp hp
    exact .inr (Cell.mem_value hc)

end Lists

/-! ### The pass for `INSERT` -/

section InsertPass

variable {u : Unicode} {r : Redactor} {prev : Option Char} {rest name : Text} {word : String}
  {least : Nat}

theorem first_literal {found : Text} (h : List.Forall₂ (fun c k => u.sameFold c k) found name) :
    first (literal u name) prev (found ++ rest) = some ⟨found, rest, []⟩ := by
  induction h generalizing prev with
  | nil => rfl
  | @cons c k found name hc _ ih =>
    rw [literal]
    have hh : first (one (u.sameFold · k)) prev (c :: (found ++ rest)) =
        some ⟨[c], found ++ rest, []⟩ := first_one hc
    simpa [Match.append] using first_seqs_cons hh ih

theorem finds_keyword (keyword : Keyword word) : Finds (literal u word.toList) keyword.val rest [] := by
  intro prev
  refine first_literal ?_
  have heq : List.Forall₂ (· = ·) (keyword.val.map Char.toLower) (word.toList.map Char.toLower) := by
    rw [forall₂_eq_eq_eq]
    exact keyword.property
  rw [forall₂_map_left_iff, forall₂_map_right_iff] at heq
  exact heq.imp fun c k => u.sameFold_of_toLower c k

theorem finds_gap (gap : Gap least) (hrest : ∀ c ∈ rest.head?, isSpace c = false) :
    Finds (many isSpace least) gap.val rest [] :=
  fun _ => first_many gap.property.2 hrest gap.property.1

theorem finds_identifier (h : IsIdentifier name)
    (hrest : ∀ c ∈ rest.head?, isWordFold c = false) : Finds (many isWordFold 1) name rest [] :=
  fun _ => first_many (fun c hc => isWordFold_of_isWord (h.2 c hc)) hrest
    (length_pos_of_ne_nil h.1)

theorem finds_until {body : Text} (hb : ∀ c ∈ body, c ≠ ')') (hne : body ≠ []) :
    Finds (many (· ≠ ')') 1) body (')' :: rest) [] :=
  fun _ => first_many (by simpa using hb) (by simp) (length_pos_of_ne_nil hne)

theorem head_of_isIdentifier (h : IsIdentifier name) : ∀ c ∈ (name ++ rest).head?, isSpace c = false := by
  intro c hc
  obtain ⟨d, text, rfl⟩ := exists_cons_of_ne_nil h.1
  cases hc
  exact not_isSpace_of_isWordFold (isWordFold_of_isWord (h.2 c mem_cons_self))

theorem head_of_gap (gap : Gap least) {mark : Char} (hm : isWordFold mark = false) :
    ∀ c ∈ (gap.val ++ mark :: rest).head?, isWordFold c = false := by
  intro c hc
  have hs := gap.property.2
  cases hg : gap.val with
  | nil =>
    rw [hg] at hc
    cases hc
    exact hm
  | cons d text =>
    rw [hg] at hc hs
    cases hc
    rw [Bool.eq_false_iff]
    intro hw
    have hc := hs c mem_cons_self
    rw [not_isSpace_of_isWordFold hw] at hc
    cases hc

theorem Keyword.isIdentifier (keyword : Keyword word)
    (hw : word.toList ≠ [] ∧ word.toList.all isWord) : IsIdentifier keyword.val := by
  constructor
  · intro hn
    have hw' := keyword.property
    rw [hn] at hw'
    exact hw.1 (map_eq_nil_iff.mp hw'.symm)
  · intro c hc
    have hmem : c.toLower ∈ word.toList.map Char.toLower := by
      rw [← keyword.property]
      exact mem_map_of_mem hc
    obtain ⟨k, hk, heq⟩ := mem_map.mp hmem
    rw [← isWord_toLower, ← heq, isWord_toLower]
    exact all_eq_true.mp hw.2 k hk

theorem finds_insertPattern (s : Insert) : Finds (insertPattern u) s.text []
    [(1, columnsText s.cells), (2, valuesText s.cells)] := by
  have hco : ∀ c ∈ columnsText s.cells, c ≠ ')' := by
    rintro c hc rfl
    exact absurd (mem_columnsText hc) (by decide)
  have hv : ∀ c ∈ valuesText s.cells, c ≠ ')' := by
    rintro c hc rfl
    exact absurd (mem_valuesText hc) (by decide)
  refine finds_cons (finds_keyword s.insert) ?_
  refine finds_cons (finds_gap s.gap₁ ?_) ?_
  · rw [append_assoc]
    exact head_of_isIdentifier (s.into.isIdentifier (by decide))
  refine finds_cons (finds_keyword s.into) ?_
  refine finds_cons (finds_gap s.gap₂ ?_) ?_
  · rw [append_assoc]
    exact head_of_isIdentifier s.table_ok
  refine finds_cons (finds_identifier s.table_ok ?_) ?_
  · rw [append_assoc]
    exact head_of_gap s.gap₃ (by decide)
  refine finds_cons (finds_gap s.gap₃ (by simp [isSpace])) ?_
  refine finds_one_cons (by decide) ?_
  refine finds_group_cons (finds_until hco (columnsText_ne_nil s.cells_ne)) ?_
  refine finds_one_cons (by decide) ?_
  refine finds_cons (finds_gap s.gap₄ ?_) ?_
  · rw [append_assoc]
    exact head_of_isIdentifier (s.values.isIdentifier (by decide))
  refine finds_cons (finds_keyword s.values) ?_
  refine finds_cons (finds_gap s.gap₅ (by simp [isSpace])) ?_
  refine finds_one_cons (by decide) ?_
  refine finds_group_cons (finds_until hv (valuesText_ne_nil s.cells_ne)) ?_
  exact finds_one_cons (by decide) finds_empty

theorem find_insertPattern (s : Insert) : find (insertPattern u) s.text =
    some ⟨s.text, [], [(1, columnsText s.cells), (2, valuesText s.cells)]⟩ := by
  have hf := finds_insertPattern (u := u) s none
  rw [append_nil] at hf
  have hne : s.text ≠ [] := by simp [Insert.text]
  rw [find, findAll, segments_hit hf hne]
  rfl

/-- In an `INSERT` the columns with a placeholder `$N` without a cast are found. -/
theorem mem_insertPositions (s : Insert) {i : Nat} : (i : Int) ∈ insertPositions u r s.text ↔
    ∃ c ∈ s.cells, isSensitiveField u r c.column ∧
      ∃ digits, c.placeholder = .dollar digits none ∧ number digits - 1 = i := by
  simp only [insertPositions, find_insertPattern]
  have hc₁ : Match.capture ⟨s.text, [], [(1, columnsText s.cells), (2, valuesText s.cells)]⟩ 1 =
      columnsText s.cells := rfl
  have hc₂ : Match.capture ⟨s.text, [], [(1, columnsText s.cells), (2, valuesText s.cells)]⟩ 2 =
      valuesText s.cells := rfl
  rw [hc₁, hc₂, parseColumnList_columnsText s.cells_ne,
    parseValueList_valuesText s.cells_ne, zip_map', filterMap_map, mem_filterMap]
  refine exists_congr fun c => and_congr_right fun _ => ?_
  have hp := extractParamPosition_text c.placeholder_ok (Int.natCast_nonneg i)
  simp only [Int.natCast_inj] at hp
  simp only [Function.comp_apply, Option.ite_none_right_eq_some, Option.some.injEq]
  constructor
  · intro h
    exact ⟨h.1.1, hp.mp h.2⟩
  · intro h
    have heq := hp.mpr h.2
    exact ⟨⟨h.1, by omega⟩, heq⟩

end InsertPass

end Bib.Audit.Redact
