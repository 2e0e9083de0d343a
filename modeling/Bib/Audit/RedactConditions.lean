import Bib.Audit.RedactArgs

/-!
# Bib.Audit.RedactConditions

**Conditions and assignments in the passes over a query** (`findSensitivePositions` in
`storage/audit/redact.go`).

A match of `column = placeholder` is a word, an equals sign and the placeholder up to its cast
(`mem_results_assigned`, `finds_assigned`). As the text between the conditions has no equals sign, the matches
are the conditions, one by one (`found_hits`). The pass for `INSERT` finds no placeholder among them, as its
values begin behind a parenthesis or a comma.
-/

namespace Bib.Audit.Redact

open Bib.Lib Bib.Lib.Regex List

/-! ### The passes for conditions -/

section Assigned

variable {u : Unicode} {r : Redactor} {tail : List (Regex Char)} {prev : Option Char} {m : Match Char}
  {text : Text}

theorem mem_results_assigned (h : m ∈ results (assigned tail) prev text) :
    ∃ name gap gap' rest, text = name ++ gap ++ '=' :: (gap' ++ rest) ∧ name ≠ [] ∧
      (∀ c ∈ name, isWordFold c) ∧ (∀ c ∈ gap, isSpace c) ∧
      ∃ m' prev', m' ∈ results (seqs tail) prev' rest := by
  rw [assigned, mem_results_seqs_append] at h
  obtain ⟨m₁, h₁, m₂, h₂, rfl⟩ := h
  simp only [mem_results_seqs_cons] at h₁
  obtain ⟨n, hn, m₃, ⟨s, hs, m₄, ⟨e, he, m₅, ⟨s', hs', m₆, h₆, rfl⟩, rfl⟩, rfl⟩, rfl⟩ := h₁
  obtain ⟨g, hg, rfl⟩ := mem_results_group.mp hn
  obtain ⟨name, rest₁, rfl, hna, hl, rfl⟩ := mem_results_many.mp hg
  obtain ⟨gap, rest₂, rfl, hga, -, rfl⟩ := mem_results_many.mp hs
  obtain ⟨c, rest₃, rfl, hc, rfl⟩ := mem_results_one.mp he
  obtain ⟨gap', rest₄, rfl, hga', -, rfl⟩ := mem_results_many.mp hs'
  cases mem_singleton.mp h₆
  obtain rfl := of_decide_eq_true hc
  exact ⟨name, gap, gap', rest₄, by simp, ne_nil_of_length_pos hl, hna, hga, m₂, _, h₂⟩

theorem findAll_assigned_eq_nil (h : '=' ∉ text) : findAll (assigned tail) text = [] := by
  refine eq_nil_iff_forall_not_mem.mpr fun found hf => h ?_
  obtain ⟨before, prev, ht, hm⟩ := exists_of_mem_findAll hf
  obtain ⟨name, gap, gap', rest, heq, -⟩ := mem_results_assigned hm
  rw [ht, heq]
  simp

theorem pgPositions_eq_nil (h : '$' ∉ text) : pgPositions u r text = [] := by
  refine filterMap_eq_nil_iff.mpr fun found hf => absurd ?_ h
  obtain ⟨before, prev, ht, hm⟩ := exists_of_mem_findAll hf
  obtain ⟨name, gap, gap', rest, heq, -, -, -, m', prev', hm'⟩ := mem_results_assigned hm
  obtain ⟨m₁, h₁, -⟩ := mem_results_seqs_cons.mp hm'
  obtain ⟨c, rest', rfl, hc, -⟩ := mem_results_one.mp h₁
  obtain rfl := of_decide_eq_true hc
  rw [ht, heq]
  simp

/-- Without an equals sign only the pass for `INSERT` finds something. -/
theorem findSensitivePositions_of_not_mem (h : '=' ∉ text) :
    findSensitivePositions u r text = insertPositions u r text := by
  have hpg : pgPositions u r text = [] := by
    rw [pgPositions, pgPattern, findAll_assigned_eq_nil h]
    rfl
  have hq : questionPositions u r text = [] := by
    rw [questionPositions, questionPattern, findAll_assigned_eq_nil h]
    rfl
  rw [findSensitivePositions, hpg, hq]
  simp

end Assigned

theorem Insert.not_mem_text (s : Insert) : '=' ∉ s.text := by
  have hw : ∀ {name : Text}, IsIdentifier name → '=' ∉ name := fun h hmem =>
    absurd (h.2 _ hmem) (by decide)
  have hg : ∀ {least : Nat} (gap : Gap least), '=' ∉ gap.val := fun gap hmem =>
    absurd (gap.property.2 _ hmem) (by decide)
  have hc : '=' ∉ columnsText s.cells := fun hmem => absurd (mem_columnsText hmem) (by decide)
  have hv : '=' ∉ valuesText s.cells := fun hmem => absurd (mem_valuesText hmem) (by decide)
  simp only [Insert.text, mem_append, mem_cons, not_or]
  simp [hg, hc, hv, hw (s.insert.isIdentifier (by decide)), hw (s.into.isIdentifier (by decide)),
    hw s.table_ok, hw (s.values.isIdentifier (by decide))]

section Scan

variable {u : Unicode} {r : Redactor} {tail : List (Regex Char)} {prev : Option Char}

/-- Before a condition no match begins, as the text there has no equals sign and does not end in a
word. -/
theorem free_assigned {front : Text} (c : Condition) (rest : Text) (hf : '=' ∉ front)
    (hlast : ∀ d ∈ front.getLast?, isWordFold d = false) :
    Free (assigned tail) prev front (c.column ++ (c.gap.val ++ '=' :: rest)) := by
  intro before after hsp hne
  refine first_eq_none fun m hm => ?_
  obtain ⟨name, gap, gap', rest', heq, hna, hw, hs, -⟩ := mem_results_assigned hm
  have hma : ∀ d ∈ name ++ gap, (d == '=') = false := by
    intro d hd
    rcases mem_append.mp hd with hd | hd
    · simpa using ne_of_isWordFold (hw d hd) (d := '=') (by decide)
    · simpa using ne_of_isSpace (hs d hd) (d := '=') (by decide)
  have hma' : ∀ d ∈ after ++ c.column ++ c.gap.val, (d == '=') = false := by
    intro d hd
    simp only [mem_append] at hd
    rcases hd with (hd | hd) | hd
    · have hd' : d ∈ front := by
        rw [hsp]
        exact mem_append_right _ hd
      simp only [beq_eq_false_iff_ne]
      rintro rfl
      exact hf hd'
    · simpa using ne_of_isWordFold (isWordFold_of_isWord (c.column_ok.2 d hd)) (d := '=') (by decide)
    · simpa using ne_of_isSpace (c.gap.property.2 d hd) (d := '=') (by decide)
  have hc : (after ++ c.column ++ c.gap.val) ++ '=' :: rest =
      (name ++ gap) ++ '=' :: (gap' ++ rest') := by simpa using heq
  obtain ⟨hn, -, -⟩ := append_cons_inj (· == '=') hma' hma (by decide) (by decide) hc
  -- the word of the match ends where the column ends, so it would have all of what is before
  have hsa : after ++ c.column = [] ++ name :=
    append_run_inj isSpace c.column_ok.1 hna
      (fun d hd => not_isSpace_of_isWordFold (isWordFold_of_isWord (c.column_ok.2 d hd)))
      (fun d hd => not_isSpace_of_isWordFold (hw d hd)) c.gap.property.2 hs
      (by simpa using hn)
  obtain ⟨init, last, rfl⟩ := (eq_nil_or_concat' after).resolve_left hne
  have hl' : isWordFold last = false := hlast last (by rw [hsp]; simp)
  rw [hw last (by rw [nil_append] at hsa; rw [← hsa]; simp)] at hl'
  cases hl'

theorem free_assigned_of_not_mem {text : Text} (h : '=' ∉ text) : Free (assigned tail) prev text [] := by
  intro before after hs _
  refine first_eq_none fun m hm => h ?_
  obtain ⟨name, gap, gap', rest, heq, -⟩ := mem_results_assigned hm
  rw [hs, ← append_nil after, heq]
  simp

theorem finds_assigned (c : Condition) {chunk rest : Text} {captures : List (Nat × Text)}
    (hchunk : ∀ d ∈ (chunk ++ rest).head?, isSpace d = false)
    (h : Finds (seqs tail) chunk rest captures) :
    Finds (assigned tail) (c.column ++ (c.gap.val ++ '=' :: (c.gap'.val ++ chunk))) rest
      ((1, c.column) :: captures) := by
  refine finds_group_cons (finds_identifier c.column_ok ?_) ?_
  · rw [append_assoc]
    exact head_of_gap c.gap (by decide)
  refine finds_cons (finds_gap c.gap (by simp [isSpace])) ?_
  refine finds_one_cons (by decide) ?_
  exact finds_cons (finds_gap c.gap' hchunk) h

def Placeholder.sign : Placeholder → Text
  | dollar digits _ => '$' :: digits
  | question => ['?']

def Placeholder.cast : Placeholder → Text
  | dollar _ cast => castText cast
  | question => []

def Placeholder.digits : Placeholder → Text
  | dollar digits _ => digits
  | question => []

def Placeholder.captures : Placeholder → List (Nat × Text)
  | dollar digits _ => [(2, digits)]
  | question => []

theorem Placeholder.text_eq (p : Placeholder) : p.text = p.sign ++ p.cast := by
  cases p <;> rfl

variable {p : Placeholder} {found : List (Text × Match Char)} {conditions : List Condition}

theorem Placeholder.isPlain_of_mem_cast (hp : p.Ok) {d : Char} (hd : d ∈ p.cast) : isPlain d := by
  cases p with
  | question => cases hd
  | dollar digits cast =>
    cases cast with
    | none => cases hd
    | some type =>
      simp only [Placeholder.cast, castText, mem_cons] at hd
      rcases hd with rfl | rfl | hd
      · decide
      · decide
      · exact (hp.2.2.2.2 type rfl).1 d hd

/-- A pattern goes on with the placeholder, up to the cast. -/
def Reads (tail : List (Regex Char)) (p : Placeholder) : Prop :=
  ∀ rest : Text, (∀ d ∈ rest.head?, d.isDigit = false) →
    Finds (seqs tail) p.sign (p.cast ++ rest) p.captures

theorem reads_dollar (hp : p.Ok) (hdo : p.isDollar) : Reads [one (· = '$'), group 2 (many Char.isDigit 1)] p := by
  intro rest hrest
  cases p with
  | question => cases hdo
  | dollar digits cast =>
    have hh : ∀ d ∈ (castText cast ++ rest).head?, d.isDigit = false := by
      cases cast with
      | none => exact hrest
      | some type =>
        intro d hd
        cases hd
        rfl
    have hn : Finds (many Char.isDigit 1) digits ([] ++ (castText cast ++ rest)) [] :=
      fun _ => first_many hp.2.1 hh (length_pos_of_ne_nil hp.1)
    have hg : Finds (seqs [group 2 (many Char.isDigit 1)]) (digits ++ []) (castText cast ++ rest)
        [(2, digits)] := finds_group_cons hn finds_empty
    rw [append_nil] at hg
    exact finds_one_cons (by decide) hg

abbrev Found : List (Text × Match Char) → List Condition → Prop :=
  List.Forall₂ fun found c => '?' ∉ found.1 ∧ found.2.captures = (1, c.column) :: c.placeholder.captures

section Run

variable {conditions : List Condition} {after : Text}

theorem head_conditionsText (hs : ∀ c ∈ conditions, c.before ≠ [] ∧
      ∀ d ∈ c.before.head?, d.isDigit = false) (ha : ∀ d ∈ after.head?, d.isDigit = false) :
    ∀ d ∈ (conditionsText conditions after).head?, d.isDigit = false := by
  cases conditions with
  | nil => exact ha
  | cons c conditions =>
    obtain ⟨hne, hh⟩ := hs c mem_cons_self
    rwa [conditionsText, head?_append_of_ne_nil _ hne]

theorem found_hits (hr : ∀ c ∈ conditions, Reads tail c.placeholder)
    (hs : ∀ c ∈ conditions.tail, c.before ≠ [] ∧ ∀ d ∈ c.before.head?, d.isDigit = false)
    (ha : ∀ d ∈ after, d ≠ '=' ∧ d ≠ '$' ∧ d ≠ '?')
    (hh : ∀ d ∈ after.head?, d.isDigit = false) {extra : Text} (he : ∀ d ∈ extra, isPlain d)
    (hf : extra = [] ∨ ∀ c ∈ conditions.head?, c.before ≠ []) (prev : Option Char) :
    Found (hits [] (segments (assigned tail) prev 0 (extra ++ conditionsText conditions after)))
      conditions := by
  -- along the conditions; `extra` is what the match before has left of its placeholder
  induction conditions generalizing extra prev with
  | nil =>
    have hnone : '=' ∉ extra ++ after := by
      intro hmem
      rcases mem_append.mp hmem with hmem | hmem
      · exact absurd (he _ hmem) (by decide)
      · exact (ha _ hmem).1 rfl
    rw [conditionsText, segments_eq_map (free_assigned_of_not_mem hnone),
      ← append_nil (map _ _), hits_map_char]
    exact .nil
  | cons c conditions ih =>
    have hread := hr c mem_cons_self
    have hs' : ∀ c' ∈ conditions, c'.before ≠ [] ∧ ∀ d ∈ c'.before.head?, d.isDigit = false := hs
    have hm : Finds (assigned tail)
        (c.column ++ (c.gap.val ++ '=' :: (c.gap'.val ++ c.placeholder.sign)))
        (c.placeholder.cast ++ conditionsText conditions after)
        ((1, c.column) :: c.placeholder.captures) := by
      refine finds_assigned c ?_ (hread _ (head_conditionsText hs' hh))
      cases c.placeholder <;> simp [Placeholder.sign, isSpace]
    have ht : extra ++ conditionsText (c :: conditions) after = (extra ++ c.before) ++
        ((c.column ++ (c.gap.val ++ '=' :: (c.gap'.val ++ c.placeholder.sign))) ++
          (c.placeholder.cast ++ conditionsText conditions after)) := by
      simp [conditionsText, Placeholder.text_eq]
    have hp : ∀ d ∈ extra ++ c.before, d ≠ '=' ∧ d ≠ '?' := by
      intro d hd
      rcases mem_append.mp hd with hd | hd
      · have hp := he d hd
        constructor <;>
        · intro heq
          rw [heq] at hp
          exact absurd hp (by decide)
      · exact ⟨(c.before_plain d hd).1, (c.before_plain d hd).2.2⟩
    have hlast : ∀ d ∈ (extra ++ c.before).getLast?, isWordFold d = false := by
      rcases hf with rfl | hb
      · exact c.before_last
      · rw [getLast?_append_of_ne_nil _ (hb c rfl)]
        exact c.before_last
    have hfr : Free (assigned tail) prev (extra ++ c.before)
        ((c.column ++ (c.gap.val ++ '=' :: (c.gap'.val ++ c.placeholder.sign))) ++
          (c.placeholder.cast ++ conditionsText conditions after)) := by
      rw [append_assoc, append_assoc]
      exact free_assigned c _ (fun hmem => (hp _ hmem).1 rfl) hlast
    rw [ht, segments_append hfr, hits_map_char, segments_hit (hm _) (by simp)]
    refine .cons ⟨fun hmem => (hp _ hmem).2 rfl, rfl⟩ ?_
    refine ih (fun c' hc' => hr c' (mem_cons_of_mem _ hc'))
      (fun c' hc' => hs' c' (mem_of_mem_tail hc'))
      (fun d hd => Placeholder.isPlain_of_mem_cast c.placeholder_ok hd)
      (.inr fun c' hc' => (hs' c' (mem_of_mem_head? hc')).1) _

end Run

theorem mem_filterMap_found (h : Found found conditions) (hdo : ∀ c ∈ conditions, c.placeholder.isDollar) {i : Nat} :
    (i : Int) ∈ (found.filterMap fun found =>
      if isSensitiveField u r (found.2.capture 1) then some (paramIndex (found.2.capture 2))
      else none) ↔
    ∃ c ∈ conditions, isSensitiveField u r c.column ∧ number c.placeholder.digits - 1 = i := by
  induction h with
  | nil => simp
  | @cons found c founds conditions hf _ ih =>
    have hco : found.2.capture 1 = c.column := by simp [Match.capture, hf.2]
    have hindex : paramIndex (found.2.capture 2) =
        ((number c.placeholder.digits - 1 : Nat) : Int) := by
      have hok := c.placeholder_ok
      have hc := hdo c mem_cons_self
      have hca := hf.2
      cases hp : c.placeholder with
      | question =>
        rw [hp] at hc
        cases hc
      | dollar digits cast =>
        rw [hp] at hok hca
        have hd : found.2.capture 2 = digits := by
          simp [Match.capture, hca, Placeholder.captures, lookup]
        rw [hd]
        exact paramIndex_eq hok.2.1 hok.2.2.1 hok.2.2.2.1
    have ih := ih fun c' hc' => hdo c' (mem_cons_of_mem _ hc')
    simp only [mem_filterMap, mem_cons, exists_eq_or_imp] at ih ⊢
    rw [ih, hco, hindex]
    simp only [Option.ite_none_right_eq_some, Option.some.injEq, Int.natCast_inj]

/-- As the text between the matches has no question mark, the loop counts the matches. -/
theorem mem_questionLoop (h : Found found conditions) {pos i : Nat} :
    (i : Int) ∈ questionLoop u r pos found ↔
      ∃ c ∈ conditions.zipIdx pos, isSensitiveField u r c.1.column ∧ c.2 = i := by
  induction h generalizing pos with
  | nil => simp [questionLoop]
  | @cons found c founds conditions hf _ ih =>
    obtain ⟨before, m⟩ := found
    have hc : m.captures = (1, c.column) :: c.placeholder.captures := hf.2
    have hco : m.capture 1 = c.column := by simp [Match.capture, hc]
    have hcu : before.count '?' = 0 := count_eq_zero.mpr hf.1
    simp only [questionLoop, hcu, hco, Nat.add_zero, mem_append, ih, zipIdx_cons,
      mem_cons, exists_eq_or_imp]
    refine or_congr ?_ Iff.rfl
    split
    next hs =>
      simp only [mem_singleton, Int.natCast_inj, hs, true_and]
      exact eq_comm
    next hs => simp [hs]

end Scan

/-! ### The pass for `INSERT` over conditions -/

/-- Before every dollar sign there are an equals sign and white space. -/
def Guarded (text : Text) : Prop :=
  ∀ before rest, text = before ++ '$' :: rest →
    ∃ front gap, before = front ++ '=' :: gap ∧ ∀ c ∈ gap, isSpace c

variable {text : Text} {u : Unicode}

theorem Guarded.append {front : Text} (h : Guarded text) (hf : '$' ∉ front) : Guarded (front ++ text) := by
  intro before rest heq
  obtain ⟨more, rfl, hm⟩ := eq_append_of_mark hf heq
  obtain ⟨front', gap, rfl, hg⟩ := h more rest hm
  exact ⟨front ++ front', gap, by rw [append_assoc], hg⟩

theorem Guarded.assigned {gap : Text} (h : Guarded text) (hg : ∀ c ∈ gap, isSpace c) :
    Guarded ('=' :: (gap ++ '$' :: text)) := by
  intro before rest heq
  have hm : '$' ∉ '=' :: gap := by
    intro hmem
    rcases mem_cons.mp hmem with hmem | hmem
    · exact absurd hmem (by decide)
    · exact absurd (hg _ hmem) (by decide)
  have heq' : ('=' :: gap) ++ '$' :: text = before ++ '$' :: rest := heq
  rcases append_mark_eq hm heq' with ⟨rfl, -⟩ | ⟨more, rfl, hmo⟩
  · exact ⟨[], gap, rfl, hg⟩
  · obtain ⟨front, gap', rfl, hg'⟩ := h more rest hmo
    exact ⟨'=' :: gap ++ '$' :: front, gap', by simp, hg'⟩

theorem Condition.not_mem (c : Condition) : '$' ∉ c.before ∧ '$' ∉ c.column ∧ '$' ∉ c.gap.val ∧ '$' ∉ c.gap'.val :=
  ⟨fun hmem => (c.before_plain _ hmem).2.1 rfl, fun hmem => absurd (c.column_ok.2 _ hmem) (by decide),
    fun hmem => absurd (c.gap.property.2 _ hmem) (by decide),
    fun hmem => absurd (c.gap'.property.2 _ hmem) (by decide)⟩

theorem guarded_conditionsText {conditions : List Condition} {after : Text} (ha : '$' ∉ after) :
    Guarded (conditionsText conditions after) := by
  induction conditions with
  | nil => exact fun before rest (heq : after = _) => absurd (by simp [heq]) ha
  | cons c conditions ih =>
    obtain ⟨hb, hc, hg, hg'⟩ := c.not_mem
    have hok := c.placeholder_ok
    refine Guarded.append (.append (.append ?_ hg) hc) hb
    cases hp : c.placeholder with
    | question =>
      have hf : '$' ∉ '=' :: (c.gap'.val ++ ['?']) := by simp [hg']
      simpa [Placeholder.text] using ih.append hf
    | dollar digits cast =>
      rw [hp] at hok
      have hrest : '$' ∉ digits ++ castText cast := by
        intro hmem
        rcases mem_append.mp hmem with hmem | hmem
        · exact absurd (hok.2.1 _ hmem) (by decide)
        · exact absurd (Placeholder.isPlain_of_mem_cast hok hmem) (by decide)
      exact (ih.append hrest).assigned c.gap'.property.2

/-- A value of an `INSERT` stands behind a parenthesis or a comma. -/
theorem exists_of_mem_values {m : Match Char}
    (h : find (insertPattern u) text = some m) {piece : Text}
    (hpi : piece ∈ (m.capture 2).splitOn ',') :
    ∃ before mark after, text = before ++ mark :: (piece ++ after) ∧ (mark = '(' ∨ mark = ',') := by
  obtain ⟨before, prev, hte, hm⟩ := exists_of_find h
  have hp : insertPattern u = seqs ([literal u "INSERT".toList, many isSpace 1,
      literal u "INTO".toList, many isSpace 1, many isWordFold 1, many isSpace 0, one (· = '('),
      group 1 (many (· ≠ ')') 1), one (· = ')'), many isSpace 0, literal u "VALUES".toList,
      many isSpace 0] ++ [one (· = '('), group 2 (many (· ≠ ')') 1), one (· = ')')]) := rfl
  rw [hp, mem_results_seqs_append] at hm
  obtain ⟨m₁, h₁, m₂, h₂, rfl⟩ := hm
  simp only [mem_results_seqs_cons] at h₂
  obtain ⟨o, ho, m₃, ⟨v, hv, m₄, ⟨e, he, m₅, h₅, rfl⟩, rfl⟩, rfl⟩ := h₂
  obtain ⟨c, rest₁, hr₁, hc, rfl⟩ := mem_results_one.mp ho
  obtain ⟨g, hg, rfl⟩ := mem_results_group.mp hv
  obtain ⟨values, rest₂, rfl, -, -, rfl⟩ := mem_results_many.mp hg
  obtain ⟨c', rest₃, rfl, -, rfl⟩ := mem_results_one.mp he
  cases mem_singleton.mp h₅
  obtain rfl := of_decide_eq_true hc
  -- the second group is not in the first part of the pattern
  have hl : m₁.captures.lookup 2 = none := by
    refine lookup_eq_none_iff.mpr fun capture hca => ?_
    have hindex := mem_groups_of_capture h₁ hca
    have hgr : capture.1 = 1 := by simpa [groups, seqs, literal] using hindex
    simp [hgr]
  have hca : Match.capture (m₁.append (Match.append ⟨['('], values ++ c' :: rest₃, []⟩
      (Match.append ⟨values, c' :: rest₃, [] ++ [(2, values)]⟩
        (Match.append ⟨[c'], rest₃, []⟩ ⟨[], rest₃, []⟩)))) 2 = values := by
    simp [Match.capture, Match.append, lookup_append, hl]
  rw [hca] at hpi
  obtain ⟨before', mark, after, heq, hma⟩ := exists_before_piece '(' hpi
  rw [intercalate_splitOn] at heq
  refine ⟨before ++ m₁.taken ++ before', mark, after ++ c' :: rest₃, ?_, hma⟩
  have ht : '(' :: (values ++ c' :: rest₃) = before' ++ mark :: (piece ++ (after ++ c' :: rest₃)) := by
    rw [← cons_append, heq]
    simp
  rw [hte]
  simp [Match.append, ht]

theorem exists_trim (p : Char → Bool) (s : Text) :
    ∃ before after, s = before ++ (trim p s ++ after) ∧ ∀ c ∈ before, p c := by
  obtain ⟨after, ha⟩ := rdropWhile_prefix p (s.dropWhile p)
  refine ⟨s.takeWhile p, after, ?_, fun c hc => mem_takeWhile_imp hc⟩
  rw [trim, ha, takeWhile_append_dropWhile]

/-- In a text of conditions no value of an `INSERT` begins with a dollar sign. -/
theorem insertPositions_eq_nil {r : Redactor} (h : Guarded text) : insertPositions u r text = [] := by
  rw [insertPositions]
  cases hfi : find (insertPattern u) text with
  | none => rfl
  | some m =>
    refine filterMap_eq_nil_iff.mpr fun pair hpa => if_neg fun hpo => ?_
    have hv := mem_of_mem_filter (of_mem_zip hpa).2
    obtain ⟨piece, hp, heq⟩ := mem_map.mp hv
    obtain ⟨before, mark, after, ht, hm⟩ := exists_of_mem_values hfi hp
    have hh : (trimSpace pair.2).head? = some '$' := by
      by_contra hh
      rw [extractParamPosition, if_neg hh] at hpo
      exact absurd hpo.2 (by decide)
    obtain ⟨rest, hrest⟩ := head?_eq_some_iff.mp hh
    obtain ⟨white, after₁, hw, hs⟩ := exists_trim isWhite piece
    obtain ⟨white', after₂, hw', hs'⟩ := exists_trim isWhite pair.2
    rw [trimSpace] at heq hrest
    rw [hrest] at hw'
    rw [heq, hw'] at hw
    -- the mark before the value and the equals sign would be at one place
    have hcu : text = (before ++ mark :: (white ++ white')) ++
        '$' :: (rest ++ (after₂ ++ (after₁ ++ after))) := by
      rw [ht, hw]
      simp
    obtain ⟨front, gap, hf, hg⟩ := h _ _ hcu
    have hn : ∀ c ∈ white ++ white', (!isWhite c) = false := by
      intro c hc
      rcases mem_append.mp hc with hc | hc
      · simp [hs c hc]
      · simp [hs' c hc]
    obtain ⟨-, heq', -⟩ := append_cons_inj_last (fun c => !isWhite c) hn
      (fun c hc => by simp [isWhite_of_isSpace (hg c hc)])
      (by rcases hm with rfl | rfl <;> decide) (by decide) hf
    rcases hm with rfl | rfl <;> exact absurd heq' (by decide)

/-! ### The statements that are redacted -/

section Main

variable {u : Unicode} {r : Redactor}

theorem Conditions.found_findAll (s : Conditions) {tail : List (Regex Char)}
    (hr : ∀ c ∈ s.conditions, Reads tail c.placeholder) :
    Found (findAll (assigned tail) (conditionsText s.conditions s.after)) s.conditions := by
  have hf : Found (hits [] (segments (assigned tail) none 0
      ([] ++ conditionsText s.conditions s.after))) s.conditions :=
    found_hits hr s.separated s.after_plain s.after_head (by simp) (.inl rfl) none
  exact hf

variable {conditions : List Condition}

theorem mem_conditionsText {c : Condition} (h : c ∈ conditions)
    (after : Text) {d : Char} (hd : d ∈ c.placeholder.text) : d ∈ conditionsText conditions after := by
  induction conditions with
  | nil => cases h
  | cons c' conditions ih =>
    rw [conditionsText]
    rcases mem_cons.mp h with rfl | h
    · simp [hd]
    · simp [ih h]

theorem not_mem_conditionsText {after : Text}
    (h : ∀ c ∈ conditions, c.placeholder = .question) (ha : '$' ∉ after) :
    '$' ∉ conditionsText conditions after := by
  induction conditions with
  | nil => exact ha
  | cons c conditions ih =>
    obtain ⟨hb, hc, hg, hg'⟩ := c.not_mem
    have ih := ih fun c' hc' => h c' (mem_cons_of_mem _ hc')
    simp [conditionsText, h c mem_cons_self, Placeholder.text, hc, hg, hg', hb, ih]

theorem mem_findSensitivePositions_dollar (s : Conditions)
    (hd : ∀ c ∈ s.conditions, c.placeholder.isDollar) {i : Nat} :
    (i : Int) ∈ findSensitivePositions u r (conditionsText s.conditions s.after) ↔
      ∃ c ∈ s.conditions, isSensitiveField u r c.column ∧ number c.placeholder.digits - 1 = i := by
  have hf : Found (findAll pgPattern (conditionsText s.conditions s.after)) s.conditions :=
    s.found_findAll fun c hc => reads_dollar c.placeholder_ok (hd c hc)
  have hi : insertPositions u r (conditionsText s.conditions s.after) = [] :=
    insertPositions_eq_nil (guarded_conditionsText fun hmem => (s.after_plain _ hmem).2.1 rfl)
  have hq : ¬ ('$' ∉ conditionsText s.conditions s.after ∧
      '?' ∈ conditionsText s.conditions s.after) := by
    intro h
    cases hco : s.conditions with
    | nil =>
      rw [hco] at h
      exact (s.after_plain _ h.2).2.2 rfl
    | cons c conditions =>
      have hc : c ∈ s.conditions := by simp [hco]
      refine h.1 (mem_conditionsText hc s.after ?_)
      have hc' := hd c hc
      cases hp : c.placeholder with
      | question =>
        rw [hp] at hc'
        cases hc'
      | dollar digits cast => simp [Placeholder.text]
  rw [findSensitivePositions, hi, if_neg hq, append_nil, append_nil]
  exact mem_filterMap_found hf hd

theorem mem_findSensitivePositions_question (s : Conditions)
    (hq : ∀ c ∈ s.conditions, c.placeholder = .question) {i : Nat} :
    (i : Int) ∈ findSensitivePositions u r (conditionsText s.conditions s.after) ↔
      ∃ c ∈ s.conditions.zipIdx, isSensitiveField u r c.1.column ∧ c.2 = i := by
  have hf : Found (findAll questionPattern (conditionsText s.conditions s.after)) s.conditions :=
    s.found_findAll fun c hc => by
      rw [hq c hc]
      exact fun _ _ => finds_one_cons (by decide) finds_empty
  have ha : '$' ∉ s.after := fun hmem => (s.after_plain _ hmem).2.1 rfl
  have hd := not_mem_conditionsText hq ha
  have hi : insertPositions u r (conditionsText s.conditions s.after) = [] :=
    insertPositions_eq_nil (guarded_conditionsText ha)
  rw [findSensitivePositions, hi, pgPositions_eq_nil hd, nil_append]
  cases hco : s.conditions with
  | nil =>
    have hnone : '?' ∉ s.after := fun hmem => (s.after_plain _ hmem).2.2 rfl
    simp [conditionsText, hnone]
  | cons c conditions =>
    have hc : c ∈ s.conditions := by simp [hco]
    have hmem : '?' ∈ conditionsText s.conditions s.after := by
      refine mem_conditionsText hc s.after ?_
      rw [hq c hc]
      exact mem_singleton.mpr rfl
    rw [← hco, if_pos ⟨hd, hmem⟩]
    exact mem_questionLoop hf

theorem exists_mem_zipIdx_iff {C : Type} {l : List C} {P : C → Prop} : (∃ c ∈ l.zipIdx, P c.1) ↔ ∃ c ∈ l, P c := by
  have hm : (∃ c ∈ l.zipIdx.map Prod.fst, P c) ↔ ∃ c ∈ l.zipIdx, P c.1 := by
    simp only [mem_map, exists_exists_and_eq_and]
  rw [← hm, zipIdx_map_fst]

/-- In conditions and assignments the positions are those of the sensitive columns. -/
theorem mem_findSensitivePositions_conditions (s : Conditions)
    (uniform : (∀ c ∈ s.conditions, c.placeholder.isDollar) ∨
      ∀ c ∈ s.conditions, c.placeholder = .question) {i : Nat} :
    (i : Int) ∈ findSensitivePositions u r (conditionsText s.conditions s.after) ↔
      ∃ b ∈ (Statement.conditions s uniform).bound, b.2 = i ∧ isSensitiveField u r b.1 := by
  simp only [Statement.bound, mem_map, exists_exists_and_eq_and]
  rcases uniform with hd | hq
  · rw [mem_findSensitivePositions_dollar s hd, ← exists_mem_zipIdx_iff]
    refine exists_congr fun c => and_congr_right fun hc => ?_
    have hc' := hd c.1 (fst_mem_of_mem_zipIdx hc)
    cases hp : c.1.placeholder with
    | question =>
      rw [hp] at hc'
      cases hc'
    | dollar digits cast => exact and_comm
  · rw [mem_findSensitivePositions_question s hq]
    refine exists_congr fun c => and_congr_right fun hc => ?_
    rw [hq c.1 (fst_mem_of_mem_zipIdx hc)]
    exact and_comm

end Main

end Bib.Audit.Redact
