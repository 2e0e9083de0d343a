import Mathlib.Data.List.Forall2
import Mathlib.Data.List.TakeWhile

/-!
# Bib.Lib.Regex

**Regular expressions as Go's `regexp` matches them**, over any alphabet: of all matches the one that begins
first, and of those the one that a backtracking search finds first. `results` lists the matches at one place in
this order. Repetition is of classes only. `segments` cuts a text into matches and the letters between them, for
expressions that do not match the empty text.

A match is found by `first_seq` and the lemmas for the single parts. That there is none is shown with
`mem_results_seq` and the like, which say what any match consists of.
-/

namespace Bib.Lib

open List

/-- Expressions; `many p least` is the greedy repetition of a class. -/
inductive Regex (α : Type)
  | empty
  | one (p : α → Bool)
  | many (p : α → Bool) (least : Nat)
  | boundary (word : α → Bool)
  | seq (a b : Regex α)
  | alt (a b : Regex α)
  | group (index : Nat) (a : Regex α)

namespace Regex

/-- A match at some place: what it takes, what comes after it and what its groups have taken. -/
structure Match (α : Type) where
  (taken rest : List α)
  captures : List (Nat × List α)

variable {α : Type}

def Match.append (m m' : Match α) : Match α :=
  ⟨m.taken ++ m'.taken, m'.rest, m.captures ++ m'.captures⟩

/-- What a group has taken; nothing if it has no part in the match. Group 0 is the whole match. -/
def Match.capture (m : Match α) (index : Nat) : List α :=
  if index = 0 then m.taken else (m.captures.lookup index).getD []

/-- The matches at the beginning of a text, best first; `prev` is the letter before it. -/
def results : Regex α → Option α → List α → List (Match α)
  | empty, _, text => [⟨[], text, []⟩]
  | one _, _, [] => []
  | one p, _, c :: text => if p c then [⟨[c], text, []⟩] else []
  | many p least, _, text =>
    (List.range' least ((text.takeWhile p).length + 1 - least)).reverse.map fun n =>
      ⟨text.take n, text.drop n, []⟩
  | boundary word, prev, text => if prev.any word ≠ text.head?.any word then [⟨[], text, []⟩] else []
  | seq a b, prev, text =>
    (results a prev text).flatMap fun m => (results b (m.taken.getLast?.or prev) m.rest).map m.append
  | alt a b, prev, text => results a prev text ++ results b prev text
  | group index a, prev, text =>
    (results a prev text).map fun m => { m with captures := m.captures ++ [(index, m.taken)] }

def first (r : Regex α) (prev : Option α) (text : List α) : Option (Match α) :=
  (results r prev text).head?

def seqs : List (Regex α) → Regex α
  | [] => empty
  | [r] => r
  | r :: rs => seq r (seqs rs)

/-- A part of a text: a match, or a letter between matches. -/
inductive Segment (α : Type)
  | char (c : α)
  | hit (m : Match α)

/-- A text cut into its matches and the letters between them; the first `skip` letters belong to a
match already. -/
def segments (r : Regex α) : Option α → Nat → List α → List (Segment α)
  | _, _, [] => []
  | _, skip + 1, c :: text => segments r (some c) skip text
  | prev, 0, c :: text =>
    match first r prev (c :: text) with
    | none => .char c :: segments r (some c) 0 text
    | some m => .hit m :: segments r (some c) (m.taken.length - 1) text

/-- The matches, each with the letters between the one before and itself. -/
def hits : List α → List (Segment α) → List (List α × Match α)
  | _, [] => []
  | before, .char c :: rest => hits (before ++ [c]) rest
  | before, .hit m :: rest => (before, m) :: hits [] rest

def findAll (r : Regex α) (text : List α) : List (List α × Match α) :=
  hits [] (segments r none 0 text)

def find (r : Regex α) (text : List α) : Option (Match α) := (findAll r text).head?.map (·.2)

def Segment.replace (replacement : Match α → List α) : Segment α → List α
  | .char c => [c]
  | .hit m => replacement m

def replaceAll (r : Regex α) (replacement : Match α → List α) (text : List α) : List α :=
  (segments r none 0 text).flatMap (Segment.replace replacement)

/-- `MatchString`: whether there is a match anywhere. -/
def matchString (r : Regex α) : Option α → List α → Bool
  | prev, [] => !(results r prev []).isEmpty
  | prev, c :: text => !(results r prev (c :: text)).isEmpty || matchString r (some c) text

/-- A text as a word of its own, `\bword\b`. -/
def wholeWord [DecidableEq α] (word : α → Bool) (letters : List α) : Regex α :=
  seqs (boundary word :: (letters.map (fun k => one (· = k)) ++ [boundary word]))

/-! ### What a match consists of -/

section Inversion

variable {a b : Regex α} {p : α → Bool} {prev : Option α} {text : List α} {m : Match α}

theorem results_empty : results (empty : Regex α) prev text = [⟨[], text, []⟩] := rfl

theorem results_one_cons (c : α) : results (one p) prev (c :: text) = if p c then [⟨[c], text, []⟩] else [] := rfl

theorem results_many (least : Nat) : results (many p least) prev text =
    (range' least ((text.takeWhile p).length + 1 - least)).reverse.map fun n =>
      ⟨text.take n, text.drop n, []⟩ := rfl

theorem results_boundary (word : α → Bool) : results (boundary word) prev text =
    if prev.any word ≠ text.head?.any word then [⟨[], text, []⟩] else [] := rfl

theorem results_seq : results (seq a b) prev text = (results a prev text).flatMap fun m =>
      (results b (m.taken.getLast?.or prev) m.rest).map m.append := rfl

theorem results_alt : results (alt a b) prev text = results a prev text ++ results b prev text := rfl

theorem results_group (index : Nat) : results (group index a) prev text =
    (results a prev text).map fun m => { m with captures := m.captures ++ [(index, m.taken)] } :=
  rfl

theorem mem_results_one : m ∈ results (one p) prev text ↔ ∃ c rest, text = c :: rest ∧ p c ∧ m = ⟨[c], rest, []⟩ := by
  constructor
  · intro h
    cases text with
    | nil => cases h
    | cons c rest =>
      rw [results_one_cons] at h
      split at h
      next hc => exact ⟨c, rest, rfl, hc, mem_singleton.mp h⟩
      · cases h
  · intro h
    obtain ⟨c, rest, rfl, hc, rfl⟩ := h
    simp [results_one_cons, hc]

theorem takeWhile_take_of_le {n : Nat} (h : n ≤ (text.takeWhile p).length) : ∀ c ∈ text.take n, p c := by
  intro c hc
  have hbegin : text.take n <+: text.takeWhile p := by
    rw [takeWhile_eq_take_findIdx_not]
    rw [takeWhile_eq_take_findIdx_not, length_take] at h
    exact take_prefix_take_left (by omega)
  exact mem_takeWhile_imp (hbegin.subset hc)

variable {least : Nat} {rs : List (Regex α)}

theorem mem_results_many : m ∈ results (many p least) prev text ↔
    ∃ run rest, text = run ++ rest ∧ (∀ c ∈ run, p c) ∧ least ≤ run.length ∧
      m = ⟨run, rest, []⟩ := by
  constructor
  · intro h
    simp only [results_many, mem_map, mem_reverse, mem_range'_1] at h
    obtain ⟨n, hn, rfl⟩ := h
    have hle : n ≤ (text.takeWhile p).length := by omega
    have hlen : n ≤ text.length := Nat.le_trans hle ( takeWhile_prefix p).length_le
    refine ⟨text.take n, text.drop n, (take_append_drop n text).symm, takeWhile_take_of_le hle, ?_, rfl⟩
    rw [length_take]
    omega
  · intro h
    obtain ⟨run, rest, rfl, hr, hl, rfl⟩ := h
    have hle : run.length ≤ ((run ++ rest).takeWhile p).length := by
      rw [takeWhile_append_of_pos hr, length_append]
      omega
    simp only [results_many, mem_map, mem_reverse, mem_range'_1]
    exact ⟨run.length, by omega, by simp⟩

theorem mem_results_seq : m ∈ results (seq a b) prev text ↔
    ∃ m₁ ∈ results a prev text, ∃ m₂ ∈ results b (m₁.taken.getLast?.or prev) m₁.rest,
      m₁.append m₂ = m := by
  simp [results_seq]

theorem mem_results_group {index : Nat} : m ∈ results (group index a) prev text ↔
    ∃ m' ∈ results a prev text, { m' with captures := m'.captures ++ [(index, m'.taken)] } = m := by
  simp [results_group]

theorem mem_results_seqs_cons : m ∈ results (seqs (a :: rs)) prev text ↔
    ∃ m₁ ∈ results a prev text, ∃ m₂ ∈ results (seqs rs) (m₁.taken.getLast?.or prev) m₁.rest,
      m₁.append m₂ = m := by
  cases rs with
  | nil => simp [seqs, results_empty, Match.append]
  | cons b rs => exact mem_results_seq

theorem append_mem_results_seqs {m' : Match α} (h : m ∈ results a prev text)
    (h' : m' ∈ results (seqs rs) (m.taken.getLast?.or prev) m.rest) :
    m.append m' ∈ results (seqs (a :: rs)) prev text :=
  mem_results_seqs_cons.mpr ⟨m, h, m', h', rfl⟩

theorem mem_results_seqs_append {rs' : List (Regex α)} : m ∈ results (seqs (rs ++ rs')) prev text ↔
      ∃ m₁ ∈ results (seqs rs) prev text,
        ∃ m₂ ∈ results (seqs rs') (m₁.taken.getLast?.or prev) m₁.rest, m₁.append m₂ = m := by
  induction rs generalizing prev text m with
  | nil => simp [seqs, results_empty, Match.append]
  | cons a rs ih =>
    simp only [cons_append, mem_results_seqs_cons, ih]
    constructor
    · intro h
      obtain ⟨m₁, h₁, -, ⟨m₂, h₂, m₃, h₃, rfl⟩, rfl⟩ := h
      refine ⟨m₁.append m₂, ⟨m₁, h₁, m₂, h₂, rfl⟩, m₃, ?_, by simp [Match.append]⟩
      simpa [Match.append, Option.or_assoc] using h₃
    · intro h
      obtain ⟨-, ⟨m₁, h₁, m₂, h₂, rfl⟩, m₃, h₃, rfl⟩ := h
      refine ⟨m₁, h₁, m₂.append m₃, ⟨m₂, h₂, m₃, ?_, rfl⟩, by simp [Match.append]⟩
      simpa [Match.append, Option.or_assoc] using h₃

def groups : Regex α → List Nat
  | seq a b | alt a b => groups a ++ groups b
  | group index a => groups a ++ [index]
  | _ => []

theorem mem_groups_of_capture (h : m ∈ results a prev text) {capture : Nat × List α}
    (hc : capture ∈ m.captures) : capture.1 ∈ groups a := by
  induction a generalizing prev text m with
  | empty =>
    cases mem_singleton.mp h
    cases hc
  | one p =>
    obtain ⟨c, rest, rfl, -, rfl⟩ := mem_results_one.mp h
    cases hc
  | many p least =>
    obtain ⟨run, rest, rfl, -, -, rfl⟩ := mem_results_many.mp h
    cases hc
  | boundary word =>
    rw [results_boundary] at h
    split at h
    · cases mem_singleton.mp h
      cases hc
    · cases h
  | seq a b iha ihb =>
    obtain ⟨m₁, h₁, m₂, h₂, rfl⟩ := mem_results_seq.mp h
    rcases mem_append.mp hc with hc | hc
    · exact mem_append_left _ (iha h₁ hc)
    · exact mem_append_right _ (ihb h₂ hc)
  | alt a b iha ihb =>
    rcases mem_append.mp h with h | h
    · exact mem_append_left _ (iha h hc)
    · exact mem_append_right _ (ihb h hc)
  | group index a ih =>
    obtain ⟨m', h', rfl⟩ := mem_results_group.mp h
    rcases mem_append.mp hc with hc | hc
    · exact mem_append_left _ (ih h' hc)
    · rw [mem_singleton.mp hc]
      exact mem_append_right _ (mem_singleton.mpr rfl)

/-- The expression matches these letters, wherever they stand. -/
def Takes (a : Regex α) (chunk : List α) : Prop :=
  ∀ prev rest, ⟨chunk, rest, []⟩ ∈ results a prev (chunk ++ rest)

theorem takes_one {c : α} (h : p c) : Takes (one p) [c] :=
  fun _ rest => mem_results_one.mpr ⟨c, rest, rfl, h, rfl⟩

theorem takes_many {run : List α} (h : ∀ c ∈ run, p c) (hl : least ≤ run.length) : Takes (many p least) run :=
  fun _ rest => mem_results_many.mpr ⟨run, rest, rfl, h, hl, rfl⟩

theorem takes_seqs {chunks : List (List α)} (h : List.Forall₂ Takes rs chunks) : Takes (seqs rs) chunks.flatten := by
  induction h with
  | nil =>
    intro prev rest
    exact mem_singleton.mpr rfl
  | @cons a chunk rs chunks ha _ ih =>
    intro prev rest
    have hmem := append_mem_results_seqs (ha prev (chunks.flatten ++ rest)) (ih _ rest)
    simpa [Match.append] using hmem

theorem taken_append_rest (h : m ∈ results a prev text) : m.taken ++ m.rest = text := by
  induction a generalizing prev text m with
  | empty =>
    rw [results_empty, mem_singleton] at h
    rw [h]
    rfl
  | one p =>
    obtain ⟨c, rest, rfl, -, rfl⟩ := mem_results_one.mp h
    rfl
  | many p least =>
    obtain ⟨run, rest, rfl, -, -, rfl⟩ := mem_results_many.mp h
    rfl
  | boundary word =>
    rw [results_boundary] at h
    split at h
    · rw [mem_singleton.mp h]
      rfl
    · cases h
  | seq a b iha ihb =>
    obtain ⟨m₁, h₁, m₂, h₂, rfl⟩ := mem_results_seq.mp h
    rw [Match.append, append_assoc, ihb h₂, iha h₁]
  | alt a b iha ihb =>
    rcases mem_append.mp h with h | h
    · exact iha h
    · exact ihb h
  | group index a ih =>
    obtain ⟨m', h', rfl⟩ := mem_results_group.mp h
    show m'.taken ++ m'.rest = text
    exact ih h'

theorem mem_results_of_first (h : first a prev text = some m) : m ∈ results a prev text := mem_of_head? h

theorem first_eq_none (h : ∀ m, m ∉ results a prev text) : first a prev text = none := by
  rw [first, head?_eq_none_iff]
  exact eq_nil_iff_forall_not_mem.mpr h

end Inversion

/-! ### Finding a match -/

section Finding

variable {a b : Regex α} {p : α → Bool} {prev : Option α} {text : List α} {m m' : Match α}

theorem first_one {c : α} (hc : p c) : first (one p) prev (c :: text) = some ⟨[c], text, []⟩ := by
  simp [first, results_one_cons, hc]

theorem first_many {least : Nat} {run rest : List α} (hru : ∀ c ∈ run, p c)
    (hrest : ∀ c ∈ rest.head?, p c = false) (hl : least ≤ run.length) :
    first (many p least) prev (run ++ rest) = some ⟨run, rest, []⟩ := by
  have ht : (run ++ rest).takeWhile p = run := by
    rw [takeWhile_append_of_pos hru]
    cases rest with
    | nil => simp
    | cons c rest => simp [hrest c rfl]
  have hr : range' least (run.length + 1 - least) =
      range' least (run.length - least) ++ [run.length] := by
    have hs : run.length + 1 - least = (run.length - least) + 1 := by omega
    rw [hs, range'_concat]
    congr 2
    omega
  simp [first, results_many, ht, hr]

theorem first_seq (ha : first a prev text = some m) (hb : first b (m.taken.getLast?.or prev) m.rest = some m') :
    first (seq a b) prev text = some (m.append m') := by
  obtain ⟨l, hl⟩ := head?_eq_some_iff.mp ha
  obtain ⟨l', hl'⟩ := head?_eq_some_iff.mp hb
  simp [first, results_seq, hl, hl']

theorem first_seqs_cons {rs : List (Regex α)} (ha : first a prev text = some m)
    (hrs : first (seqs rs) (m.taken.getLast?.or prev) m.rest = some m') :
    first (seqs (a :: rs)) prev text = some (m.append m') := by
  cases rs with
  | nil =>
    cases hrs
    simpa [seqs, Match.append] using ha
  | cons b rs => exact first_seq ha hrs

theorem first_group {index : Nat} (ha : first a prev text = some m) :
    first (group index a) prev text =
      some { m with captures := m.captures ++ [(index, m.taken)] } := by
  obtain ⟨l, hl⟩ := head?_eq_some_iff.mp ha
  simp [first, results_group, hl]

/-- These letters in front of the rest are the match, whatever is before them. -/
def Finds (a : Regex α) (chunk rest : List α) (captures : List (Nat × List α)) : Prop :=
  ∀ prev, first a prev (chunk ++ rest) = some ⟨chunk, rest, captures⟩

section Chains

variable {rs : List (Regex α)} {chunk more rest : List α} {captures : List (Nat × List α)}

theorem finds_empty : Finds (seqs []) [] rest [] := fun _ => rfl

theorem finds_cons (ha : Finds a chunk (more ++ rest) []) (h : Finds (seqs rs) more rest captures) :
    Finds (seqs (a :: rs)) (chunk ++ more) rest captures := by
  intro prev
  rw [append_assoc]
  exact first_seqs_cons (ha prev) (h _)

theorem finds_one_cons {c : α} (hc : p c) (h : Finds (seqs rs) more rest captures) :
    Finds (seqs (one p :: rs)) (c :: more) rest captures :=
  fun _ => first_seqs_cons (first_one hc) (h _)

theorem finds_group_cons {index : Nat} (ha : Finds a chunk (more ++ rest) [])
    (h : Finds (seqs rs) more rest captures) :
    Finds (seqs (group index a :: rs)) (chunk ++ more) rest ((index, chunk) :: captures) := by
  intro prev
  rw [append_assoc]
  exact first_seqs_cons (first_group (ha prev)) (h _)

end Chains

end Finding

/-! ### Cutting a text -/

section Segments

variable {r : Regex α} {prev : Option α} {front text : List α} {m : Match α}

theorem getLast?_cons_or (c : α) (l : List α) (prev : Option α) :
    (c :: l).getLast?.or prev = l.getLast?.or (some c) := by
  rw [getLast?_cons]
  cases l.getLast? <;> rfl

/-- No match begins in the front of a text. -/
def Free (r : Regex α) (prev : Option α) (front text : List α) : Prop :=
  ∀ before after, front = before ++ after → after ≠ [] →
    first r (before.getLast?.or prev) (after ++ text) = none

theorem segments_append (h : Free r prev front text) : segments r prev 0 (front ++ text) =
      front.map .char ++ segments r (front.getLast?.or prev) 0 text := by
  induction front generalizing prev with
  | nil => rfl
  | cons c front ih =>
    have hf : first r prev (c :: (front ++ text)) = none := h [] (c :: front) rfl (by simp)
    rw [cons_append, segments]
    simp only [hf]
    rw [ih, getLast?_cons_or, map_cons, cons_append]
    intro before after hs hne
    rw [← getLast?_cons_or c before prev]
    exact h (c :: before) after (by rw [hs, cons_append]) hne

theorem segments_skip (taken text : List α) (prev : Option α) :
    segments r prev taken.length (taken ++ text) = segments r (taken.getLast?.or prev) 0 text := by
  induction taken generalizing prev with
  | nil => rfl
  | cons c taken ih => rw [cons_append, length_cons, segments, ih, getLast?_cons_or]

theorem segments_hit (h : first r prev text = some m) (hne : m.taken ≠ []) :
    segments r prev 0 text = .hit m :: segments r (m.taken.getLast?.or prev) 0 m.rest := by
  have hte := taken_append_rest (mem_results_of_first h)
  obtain ⟨c, taken, ht⟩ := exists_cons_of_ne_nil hne
  rw [ht, cons_append] at hte
  rw [← hte] at h ⊢
  rw [segments]
  simp only [h, ht, length_cons, Nat.add_sub_cancel]
  rw [segments_skip, getLast?_cons_or]

theorem segments_eq_map (h : Free r prev text []) : segments r prev 0 text = text.map .char := by
  have hm := segments_append h
  simpa [segments] using hm

theorem exists_segments_append (h : ∀ before after, front = before ++ after → after ≠ [] →
      ∀ m, first r (before.getLast?.or prev) (after ++ text) = some m →
        m.taken.length ≤ after.length) {skip : Nat} (hsk : skip ≤ front.length) :
    ∃ parts, segments r prev skip (front ++ text) =
      parts ++ segments r (front.getLast?.or prev) 0 text := by
  induction front generalizing prev skip with
  | nil =>
    obtain rfl : skip = 0 := Nat.le_zero.mp hsk
    exact ⟨[], rfl⟩
  | cons c front ih =>
    have hrest : ∀ before after, front = before ++ after → after ≠ [] →
        ∀ m, first r (before.getLast?.or (some c)) (after ++ text) = some m →
          m.taken.length ≤ after.length := by
      intro before after hs hne m hm
      rw [← getLast?_cons_or c before prev] at hm
      exact h (c :: before) after (by rw [hs, cons_append]) hne m hm
    rw [getLast?_cons_or, cons_append]
    cases skip with
    | succ skip => exact ih hrest (Nat.le_of_succ_le_succ hsk)
    | zero =>
      rw [segments]
      cases hf : first r prev (c :: (front ++ text)) with
      | none =>
        obtain ⟨parts, hp⟩ := ih hrest (Nat.zero_le _)
        exact ⟨.char c :: parts, by simp [hp]⟩
      | some m =>
        have hlen := h [] (c :: front) rfl (by simp) m hf
        have hsk' : m.taken.length - 1 ≤ front.length := by
          rw [length_cons] at hlen
          omega
        obtain ⟨parts, hp⟩ := ih hrest hsk'
        exact ⟨.hit m :: parts, by simp [hp]⟩

theorem hits_map_char (before front : List α) (rest : List (Segment α)) :
    hits before (front.map .char ++ rest) = hits (before ++ front) rest := by
  induction front generalizing before with
  | nil => simp
  | cons c front ih => simp [hits, ih]

theorem exists_of_hit_mem {skip : Nat} (h : .hit m ∈ segments r prev skip text) :
    ∃ before prev', text = before ++ (m.taken ++ m.rest) ∧
      m ∈ results r prev' (m.taken ++ m.rest) := by
  induction text generalizing prev skip with
  | nil => cases h
  | cons c text ih =>
    have hl : ∀ {prev skip}, .hit m ∈ segments r prev skip text →
        ∃ before prev', c :: text = before ++ (m.taken ++ m.rest) ∧
          m ∈ results r prev' (m.taken ++ m.rest) := by
      intro prev skip h
      obtain ⟨before, prev', ht, hm⟩ := ih h
      exact ⟨c :: before, prev', by rw [ht, cons_append], hm⟩
    cases skip with
    | succ skip => exact hl h
    | zero =>
      rw [segments] at h
      cases hf : first r prev (c :: text) with
      | none =>
        rw [hf] at h
        rcases mem_cons.mp h with h | h
        · cases h
        · exact hl h
      | some m' =>
        rw [hf] at h
        rcases mem_cons.mp h with h | h
        · cases h
          have hmem := mem_results_of_first hf
          refine ⟨[], prev, (taken_append_rest hmem).symm, ?_⟩
          rwa [taken_append_rest hmem]
        · exact hl h

variable {before : List α} {found : List α × Match α}

theorem hit_mem_of_hits {parts : List (Segment α)}
    (h : found ∈ hits before parts) : .hit found.2 ∈ parts := by
  induction parts generalizing before with
  | nil => cases h
  | cons part parts ih =>
    cases part with
    | char c => exact mem_cons_of_mem _ (ih h)
    | hit m =>
      rcases mem_cons.mp h with rfl | h
      · exact mem_cons_self
      · exact mem_cons_of_mem _ (ih h)

theorem exists_of_mem_findAll (h : found ∈ findAll r text) :
    ∃ before prev, text = before ++ (found.2.taken ++ found.2.rest) ∧
      found.2 ∈ results r prev (found.2.taken ++ found.2.rest) :=
  exists_of_hit_mem (hit_mem_of_hits h)

theorem exists_of_find (h : find r text = some m) :
    ∃ before prev, text = before ++ (m.taken ++ m.rest) ∧
      m ∈ results r prev (m.taken ++ m.rest) := by
  obtain ⟨found, hf, rfl⟩ := Option.map_eq_some_iff.mp h
  exact exists_of_mem_findAll (mem_of_head? hf)

theorem matchString_of_mem (h : m ∈ results r (before.getLast?.or prev) text) :
    matchString r prev (before ++ text) = true := by
  induction before generalizing prev with
  | nil =>
    have hne : (results r prev text).isEmpty = false := by
      rw [isEmpty_eq_false_iff_exists_mem]
      exact ⟨m, h⟩
    cases text <;> simp [matchString, hne]
  | cons c before ih =>
    rw [getLast?_cons_or] at h
    rw [cons_append, matchString, ih h, Bool.or_true]

theorem matchString_wholeWord [DecidableEq α] {word : α → Bool} {before letters after : List α}
    (hne : letters ≠ []) (hl : ∀ c ∈ letters, word c = true)
    (hb : ∀ c ∈ before.getLast?, word c = false) (ha : ∀ c ∈ after.head?, word c = false) :
    matchString (wholeWord word letters) none (before ++ (letters ++ after)) = true := by
  have hn : ∀ x : Option α, (∀ c ∈ x, word c = false) → x.any word = false := by
    intro x hx
    cases x with
    | none => rfl
    | some c => exact hx c rfl
  have hbegin : (letters ++ after).head?.any word = true := by
    obtain ⟨c, letters, rfl⟩ := exists_cons_of_ne_nil hne
    exact hl c mem_cons_self
  have hlast : (letters.getLast?.or before.getLast?).any word = true := by
    rw [getLast?_eq_some_getLast hne]
    exact hl _ (getLast_mem hne)
  have ht : Takes (seqs (letters.map fun k => one (· = k))) letters := by
    have hall : List.Forall₂ Takes (letters.map fun k => one (· = k)) (letters.map fun k => [k]) := by
      rw [forall₂_map_left_iff, forall₂_map_right_iff]
      exact forall₂_same.mpr fun k _ => takes_one (by simp)
    have hfl : (letters.map fun k => [k]).flatten = letters := by
      rw [← flatMap_def, flatMap_singleton']
    have hc := takes_seqs hall
    rwa [hfl] at hc
  have hf : (⟨[], letters ++ after, []⟩ : Match α) ∈
      results (boundary word) before.getLast? (letters ++ after) := by
    rw [results_boundary, hn _ hb, hbegin]
    simp
  have he : (⟨[], after, []⟩ : Match α) ∈
      results (seqs [boundary word]) (letters.getLast?.or before.getLast?) after := by
    simp [seqs, results_boundary, hn _ ha, hlast]
  have hm : (⟨letters, after, []⟩ : Match α).append ⟨[], after, []⟩ ∈
      results (seqs (letters.map (fun k => one (· = k)) ++ [boundary word])) before.getLast?
        (letters ++ after) :=
    mem_results_seqs_append.mpr ⟨_, ht before.getLast? after, _, he, rfl⟩
  have hmem := append_mem_results_seqs hf hm
  exact matchString_of_mem (by rwa [Option.or_none])

end Segments

end Regex

end Bib.Lib
