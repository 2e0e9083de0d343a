import Bib.Lib.Json.Literal

/-!
# Bib.Lib.Json.Object

**Objects: how `encoding/json` writes the members of an object and finds them again.** A value ends where the
scanner, started afresh on it, has nothing open and the next byte is not part of it (`takeValue`). Members that
are values make an object that is one (`isValue_objectText`), and its members are found again
(`objectMembers_objectText`).
-/

namespace Bib.Lib.Json

open List
open Option (bind_eq_some_iff bind_some)

/-! ### Writing -/

/-- Members, each a key and a value as written, separated by commas. -/
def membersText : List (Text × Text) → Text
  | [] => []
  | [(key, value)] => key ++ 0x3a :: value
  | (key, value) :: rest => key ++ 0x3a :: (value ++ 0x2c :: membersText rest)

def objectText (members : List (Text × Text)) : Text := 0x7b :: (membersText members ++ [0x7d])

/-! ### Reading -/

/-- The text without the white space before it. -/
def skipSpaces (text : Text) : Text := text.dropWhile isSpace

/-- The value at the front of a text, from a scan of its beginning; `front` is what has
been read of it, last byte first. -/
def takeValueFrom (limit : Nat) (s : Scan) (front : Text) : Text → Option (Text × Text)
  | [] => if s.eof then some (front.reverse, []) else none
  | c :: rest =>
    if s.state = .endTop ∨ s.stack = [] ∧ move s.state c = .ends then
      some (front.reverse, c :: rest)
    else (step limit s c).bind fun s' => takeValueFrom limit s' (c :: front) rest

/-- The value at the front of a text, and what comes after it. -/
def takeValue (limit : Nat) (text : Text) : Option (Text × Text) :=
  takeValueFrom limit .start [] text

/-- The members up to the closing brace. The second argument bounds their number. -/
def takeMembers (limit : Nat) : Nat → Text → Option (List (Text × Text))
  | 0, _ => none
  | count + 1, text =>
    (takeValue limit (skipSpaces text)).bind fun key =>
      match skipSpaces key.2 with
      | 0x3a :: rest =>
        (takeValue limit (skipSpaces rest)).bind fun value =>
          match skipSpaces value.2 with
          | 0x2c :: rest => (takeMembers limit count rest).map ((key.1, value.1) :: ·)
          | 0x7d :: _ => some [(key.1, value.1)]
          | _ => none
      | _ => none

def objectMembers (limit : Nat) (text : Text) : Option (List (Text × Text)) :=
  match skipSpaces text with
  | 0x7b :: rest =>
    match skipSpaces rest with
    | 0x7d :: _ => some []
    | rest => takeMembers limit rest.length rest
  | _ => none

/-! ### A value and what comes after it -/

section Values

variable {limit : Nat} {s s' : Scan} {c : UInt8} {text value rest : Text}

/-- The beginning of a tight run is not cut short: inside it either something is open or
the next byte belongs to it. -/
theorem not_ended_of_tightStep (h : tightStep limit s c = some s') :
    ¬ (s.state = .endTop ∨ s.stack = [] ∧ move s.state c = .ends) := by
  obtain ⟨state, stack⟩ := s
  rintro (ht | ⟨hstack, he⟩)
  · subst ht
    rw [tightStep_endTop] at h
    cases h
  · subst hstack
    obtain ⟨hs, hstep⟩ := tightStep_eq_some.mp h
    rw [step_ends he] at hstep
    simp only [afterValue, Option.ite_none_right_eq_some] at hstep
    rw [show state = .inString from hs hstep.1] at he
    simp [move, ite_eq_iff] at he

theorem takeValueFrom_append (h : tightRun limit s value = some s') (heo : s'.eof)
    (hc : isDelimiter c) (front rest : Text) : takeValueFrom limit s front (value ++ c :: rest) =
      some (front.reverse ++ value, c :: rest) := by
  induction value generalizing s front with
  | nil =>
    obtain rfl : s = s' := Option.some.inj h
    have hs : s.state = .endTop ∨ s.stack = [] ∧ move s.state c = .ends := by
      rcases eof_iff.mp heo with ht | ⟨he, hstack⟩
      · exact .inl ht
      · exact .inr ⟨hstack, move_of_ended he hc⟩
    simp [takeValueFrom, hs]
  | cons b value ih =>
    simp only [tightRun, bind_eq_some_iff] at h
    obtain ⟨s₁, hstep, hrest⟩ := h
    have hgo := not_ended_of_tightStep hstep
    simp [takeValueFrom, hgo, (tightStep_eq_some.mp hstep).2, ih hrest]

/-- **A value is found again in front of a delimiter.** -/
theorem takeValue_append (h : IsValue limit value) (hc : isDelimiter c) (rest : Text) :
    takeValue limit (value ++ c :: rest) = some (value, c :: rest) := by
  obtain ⟨s, hr, he⟩ := h
  exact takeValueFrom_append hr he hc [] rest

theorem skipSpaces_cons (h : isSpace c = false) (rest : Text) : skipSpaces (c :: rest) = c :: rest := by
  simp [skipSpaces, h]

theorem IsValue.head (h : IsValue limit value) : ∃ c rest, value = c :: rest ∧ isSpace c = false := by
  obtain ⟨s, hr, he⟩ := h
  cases value with
  | nil =>
    cases hr
    cases he
  | cons c rest =>
    refine ⟨c, rest, rfl, ?_⟩
    simp only [tightRun, bind_eq_some_iff, tightStep_eq_some] at hr
    obtain ⟨s₁, ⟨hs, -⟩, -⟩ := hr
    cases hc : isSpace c with
    | false => rfl
    | true => cases hs hc

theorem IsValue.skipSpaces_append (h : IsValue limit value) (rest : Text) :
    skipSpaces (value ++ rest) = value ++ rest := by
  obtain ⟨c, more, rfl, hc⟩ := h.head
  exact skipSpaces_cons hc _

end Values

/-! ### Members -/

def IsMember (limit : Nat) (member : Text × Text) : Prop :=
  IsString member.1 ∧ IsValue limit member.2

section Members

variable {limit limit' : Nat} {members : List (Text × Text)} {value key : Text} {m : Text × Text}

theorem isMember_quote {name : Text} (h : IsValue limit value) : IsMember limit (quote name, value) :=
  ⟨isString_quote name, h⟩

theorem takeMembers_step (hk : IsString key) (hv : IsValue limit value)
    {c : UInt8} (hc : c = 0x2c ∨ c = 0x7d) (count : Nat) (rest : Text) :
    takeMembers limit (count + 1) (key ++ 0x3a :: (value ++ c :: rest)) =
      if c = 0x2c then (takeMembers limit count rest).map ((key, value) :: ·)
      else some [(key, value)] := by
  have hk : IsValue limit key := hk.isValue
  have hco : isDelimiter 0x3a = true := rfl
  have hd : isDelimiter c = true ∧ isSpace c = false := by
    rcases hc with rfl | rfl <;> decide
  rw [takeMembers, hk.skipSpaces_append, takeValue_append hk hco, bind_some, skipSpaces_cons (by decide)]
  simp only
  rw [hv.skipSpaces_append, takeValue_append hv hd.1, bind_some]
  rcases hc with rfl | rfl <;> rfl

theorem takeMembers_membersText (hne : members ≠ []) (h : ∀ m ∈ members, IsMember limit m)
    {count : Nat} (hc : members.length ≤ count) (rest : Text) :
    takeMembers limit count (membersText members ++ 0x7d :: rest) = some members := by
  induction members generalizing count with
  | nil => exact absurd rfl hne
  | cons m members ih =>
    obtain ⟨key, value⟩ := m
    obtain ⟨hk, hv⟩ := h (key, value) (by simp)
    obtain ⟨count, rfl⟩ := Nat.exists_eq_add_of_le' (Nat.one_le_of_lt hc)
    cases members with
    | nil =>
      simp only [membersText, append_assoc, cons_append]
      rw [takeMembers_step hk hv (.inr rfl)]
      rfl
    | cons m' members =>
      have ht := ih (by simp) (fun m hm => h m (by simp [hm])) (Nat.le_of_succ_le_succ hc)
      simp only [membersText, append_assoc, cons_append]
      rw [takeMembers_step hk hv (.inl rfl), ht]
      rfl

theorem length_le_membersText (members : List (Text × Text)) : members.length ≤ (membersText members).length := by
  induction members with
  | nil => exact Nat.le_refl _
  | cons m members ih =>
    obtain ⟨key, value⟩ := m
    cases members with
    | nil =>
      simp only [membersText, length_append, length_cons, length_nil]
      omega
    | cons m' members =>
      simp only [membersText, length_append, length_cons] at ih ⊢
      omega

theorem membersText_head (hne : members ≠ []) (h : ∀ m ∈ members, IsMember limit m) :
    ∃ rest, membersText members = 0x22 :: rest := by
  cases members with
  | nil => exact absurd rfl hne
  | cons m members =>
    obtain ⟨key, value⟩ := m
    obtain ⟨rest, hk, -⟩ := (h (key, value) (by simp)).1
    simp only at hk
    cases members <;> simp [membersText, hk]

/-- **The members of a written object are found again.** -/
theorem objectMembers_objectText (h : ∀ m ∈ members, IsMember limit m) :
    objectMembers limit (objectText members) = some members := by
  rcases eq_or_ne members [] with rfl | hne
  · rfl
  · obtain ⟨rest, hrest⟩ := membersText_head hne h
    have hb : isSpace 0x7b = false := rfl
    have hlen : members.length ≤ (membersText members ++ [0x7d]).length := by
      have := length_le_membersText members
      simp only [length_append]
      omega
    have ht := takeMembers_membersText hne h hlen []
    rw [objectMembers, objectText]
    rw [hrest] at ht ⊢
    exact ht

/-! ### An object is a value -/

theorem tightRun_key (hk : IsString key) {state : State}
    (hs : state = .beginString ∨ state = .beginStringOrEmpty) (limit : Nat) (stack : List Frame) :
    tightRun limit ⟨state, .objectKey :: stack⟩ key = some ⟨.endValue, .objectKey :: stack⟩ := by
  obtain ⟨rest, rfl, hr⟩ := hk
  have hq : tightStep limit ⟨state, .objectKey :: stack⟩ 0x22 =
      some ⟨.inString, .objectKey :: stack⟩ := by
    rcases hs with rfl | rfl <;> rfl
  rw [tightRun_cons hq, hr]

theorem tightRun_member (h : IsMember limit m) {state : State}
    (hst : state = .beginString ∨ state = .beginStringOrEmpty) {c : UInt8}
    (hc : isDelimiter c) (hs : isSpace c = false) (rest : Text) :
    tightRun (limit + 1) ⟨state, [.objectKey]⟩ (m.1 ++ 0x3a :: (m.2 ++ c :: rest)) =
      (afterValue [.objectValue] c).bind (tightRun (limit + 1) · rest) := by
  obtain ⟨hk, hv⟩ := h
  obtain ⟨ended, he, hr⟩ := hv.inside [.objectValue] (by simp)
  have hco : tightStep (limit + 1) ⟨.endValue, [.objectKey]⟩ 0x3a =
      some ⟨.beginValue, [.objectValue]⟩ := rfl
  rw [tightRun_append, tightRun_key hk hst, bind_some, tightRun_cons hco, tightRun_append]
  simp only [length_cons, length_nil, Nat.zero_add] at hr
  rw [hr, bind_some, tightRun]
  simp [tightStep, hs, step_ends (move_of_ended he hc)]

theorem tightRun_membersText (hne : members ≠ []) (h : ∀ m ∈ members, IsMember limit m)
    {state : State} (hs : state = .beginString ∨ state = .beginStringOrEmpty) :
    tightRun (limit + 1) ⟨state, [.objectKey]⟩ (membersText members ++ [0x7d]) =
      some ⟨.endTop, []⟩ := by
  induction members generalizing state with
  | nil => exact absurd rfl hne
  | cons m members ih =>
    have hm := h m (by simp)
    cases members with
    | nil =>
      simp only [membersText, append_assoc, cons_append]
      rw [tightRun_member hm hs rfl rfl]
      rfl
    | cons m' members =>
      have ht := ih (by simp) (fun m hm => h m (by simp [hm])) (.inl rfl)
      simp only [membersText, append_assoc, cons_append]
      rw [tightRun_member hm hs rfl rfl]
      exact ht

/-- **An object of values is a value, one level deeper.** -/
theorem isValue_objectText (h : ∀ m ∈ members, IsMember limit m) : IsValue (limit + 1) (objectText members) := by
  refine ⟨⟨.endTop, []⟩, ?_, rfl⟩
  rcases eq_or_ne members [] with rfl | hne
  · rfl
  · exact tightRun_membersText hne h (.inr rfl)

/-- Conversely, a member that is read inside an object is nested one level less. It is known
to be a value for some limit, as what is written is. -/
theorem isValue_of_run_member (h : IsMember limit' m)
    {state : State} (hs : state = .beginString ∨ state = .beginStringOrEmpty) {c : UInt8}
    (hc : isDelimiter c) {rest : Text} {s' : Scan}
    (hr : run (limit + 1) ⟨state, [.objectKey]⟩ (m.1 ++ 0x3a :: (m.2 ++ c :: rest)) = some s') :
    IsValue limit m.2 ∧ (afterValue [.objectValue] c).bind (run (limit + 1) · rest) = some s' := by
  obtain ⟨hke, hv⟩ := h
  have hk := run_of_tightRun (tightRun_key hke hs (limit + 1) [])
  have hco : step (limit + 1) ⟨.endValue, [.objectKey]⟩ 0x3a = some ⟨.beginValue, [.objectValue]⟩ := rfl
  rw [run_append, hk, bind_some, run, hco, bind_some, run_append, bind_eq_some_iff] at hr
  obtain ⟨u, hva, hrest⟩ := hr
  have hl : IsValue limit m.2 := hv.of_inside [.objectValue] (by simp) hva
  obtain ⟨ended, he, ht⟩ := hl.inside [.objectValue] (by simp)
  have hu : u = ⟨ended, [.objectValue]⟩ := Option.some.inj (hva.symm.trans (run_of_tightRun ht))
  subst hu
  refine ⟨hl, ?_⟩
  rw [run] at hrest
  rwa [step_ends (move_of_ended he hc)] at hrest

theorem isValue_of_run_membersText (h : ∀ m ∈ members, IsMember limit' m)
    {state : State} (hs : state = .beginString ∨ state = .beginStringOrEmpty) {s' : Scan}
    (hr : run (limit + 1) ⟨state, [.objectKey]⟩ (membersText members ++ [0x7d]) = some s') :
    ∀ m ∈ members, IsValue limit m.2 := by
  induction members generalizing state with
  | nil => simp
  | cons m members ih =>
    have hm := h m (by simp)
    cases members with
    | nil =>
      simp only [membersText, append_assoc, cons_append] at hr
      have hv := (isValue_of_run_member hm hs rfl hr).1
      simpa using hv
    | cons m' members =>
      simp only [membersText, append_assoc, cons_append] at hr
      obtain ⟨hv, hrest⟩ := isValue_of_run_member hm hs rfl hr
      have ht := ih (fun m hm => h m (by simp [hm])) (.inl rfl) hrest
      intro m₀ hm₀
      rcases mem_cons.mp hm₀ with rfl | hm₀
      · exact hv
      · exact ht m₀ hm₀

/-- **The values in an accepted object are nested one level less than it.** -/
theorem isValue_of_accepts_objectText (h : ∀ m ∈ members, IsMember limit' m)
    (ha : accepts (limit + 1) (objectText members)) : ∀ m ∈ members, IsValue limit m.2 := by
  simp only [accepts, Option.any_eq_true] at ha
  obtain ⟨s, hr, -⟩ := ha
  exact isValue_of_run_membersText h (.inr rfl) hr

end Members

/-! ### What is read -/

section Taken

variable {limit : Nat} {s s' : Scan} {c : UInt8} {text value rest front : Text}

/-- A value that has ended before a byte is complete, but for a bracket that was just opened. -/
theorem ended_of_move {state : State} (h : move state c = .ends) : state.ended ∨ state = .beginValueOrEmpty := by
  cases state <;>
    simp [move, valueStart, keyStart, expect, expectHex, exponentDigit, ite_eq_iff] at h <;>
    simp [State.ended]

/-- Where a bracket was just opened something is open. -/
def Scan.Opened (s : Scan) : Prop := s.state = .beginValueOrEmpty → s.stack ≠ []

theorem opened_popped (stack : List Frame) : (popped stack).Opened := by
  intro hs
  cases stack <;> cases hs

theorem Scan.Opened.step (hs : s.Opened) (h : step limit s c = some s') : s'.Opened := by
  cases steps_of_step h with
  | goto next hmove =>
    intro hst
    subst hst
    refine hs ?_
    -- white space only
    generalize s.state = state at hmove
    cases state <;>
      simp [move, valueStart, keyStart, expect, expectHex, exponentDigit, afterInteger,
        ite_eq_iff] at hmove
    rfl
  | push frame next => exact fun _ => cons_ne_nil _ _
  | turn top frame rest => exact fun _ => cons_ne_nil _ _
  | _ => exact opened_popped _

theorem takeValueFrom_eq_some (hs : s.Opened) (h : takeValueFrom limit s front text = some (value, rest)) :
    ∃ taken, value = front.reverse ++ taken ∧ text = taken ++ rest ∧
      (run limit s taken).any Scan.eof := by
  induction text generalizing s front with
  | nil =>
    simp only [takeValueFrom, Option.ite_none_right_eq_some, Option.some.injEq, Prod.mk.injEq] at h
    obtain ⟨heo, rfl, rfl⟩ := h
    exact ⟨[], by simp, rfl, by simpa [run] using heo⟩
  | cons c text ih =>
    rw [takeValueFrom] at h
    split at h
    next hst =>
      cases h
      refine ⟨[], by simp, rfl, ?_⟩
      have heo : s.eof := by
        rcases hst with ht | ⟨hstack, hen⟩
        · exact eof_iff.mpr (.inl ht)
        · rcases ended_of_move hen with he | ho
          · exact eof_iff.mpr (.inr ⟨he, hstack⟩)
          · exact absurd hstack (hs ho)
      simpa [run] using heo
    · obtain ⟨s₁, hstep, hrest⟩ := bind_eq_some_iff.mp h
      obtain ⟨taken, hv, hte, hr⟩ := ih (hs.step hstep) hrest
      refine ⟨c :: taken, by simp [hv], by rw [hte]; rfl, ?_⟩
      rwa [run, hstep]

/-- **What is taken as a value is one.** -/
theorem accepts_of_takeValue (h : takeValue limit text = some (value, rest)) : accepts limit value := by
  have hs : Scan.Opened .start := by
    intro hst
    cases hst
  obtain ⟨taken, hv, -, hr⟩ := takeValueFrom_eq_some hs h
  rwa [hv]

variable {members : List (Text × Text)}

theorem accepts_of_mem_takeMembers {count : Nat}
    (h : takeMembers limit count text = some members) : ∀ m ∈ members, accepts limit m.2 := by
  induction count generalizing text members with
  | zero => cases h
  | succ count ih =>
    obtain ⟨key, hk, h⟩ := bind_eq_some_iff.mp h
    split at h
    · obtain ⟨value, hv, h⟩ := bind_eq_some_iff.mp h
      have ha := accepts_of_takeValue hv
      split at h
      · obtain ⟨others, ho, rfl⟩ := Option.map_eq_some_iff.mp h
        intro m hm
        rcases mem_cons.mp hm with rfl | hm
        · exact ha
        · exact ih ho m hm
      · cases h
        simpa using ha
      · cases h
    · cases h

theorem accepts_of_mem_objectMembers
    (h : objectMembers limit text = some members) : ∀ m ∈ members, accepts limit m.2 := by
  rw [objectMembers] at h
  split at h
  · split at h
    · cases h
      simp
    · exact accepts_of_mem_takeMembers h
  · cases h

end Taken

end Bib.Lib.Json
