import Bib.Lib.Json.Object

/-!
# Bib.Lib.Json.Struct

**Reading a text into a struct.** `unmarshal` is `json.Unmarshal` into a value of a type
whose fields are given as data: a name and what a member's value does to the struct. A
member goes to the field of its name, else to one whose name is the same up to case, else
nowhere; a value of the wrong kind is an error. The texts of the errors are not part of
the model.
-/

namespace Bib.Lib.Json

open List

def utf8 (s : String) : Text := s.toByteArray.data.toList

theorem utf8_eq (s : String) : utf8 s = s.toList.flatMap String.utf8EncodeChar := by
  have h : s.toByteArray = s.toList.utf8Encode := by
    rw [← String.toByteArray_ofList, String.ofList_toList]
  rw [utf8, h, utf8Encode, toList_data_toByteArray]

theorem utf8_injective : Function.Injective utf8 := by
  intro s t h
  exact String.toByteArray_inj.mp (ByteArray.ext (Array.toList_inj.mp h))

theorem multiByte_utf8EncodeChar {c : Char} (h : 127 < c.val.toNat) : multiByte (String.utf8EncodeChar c) := by
  have hvalid : c.val.toNat < 0xd800 ∨ 0xdfff < c.val.toNat ∧ c.val.toNat < 0x110000 := c.valid
  unfold String.utf8EncodeChar
  rw [if_neg (Nat.not_le.mpr h)]
  split_ifs with h2 h3
  all_goals
    simp only [multiByte, isTail, Bool.and_eq_true, Bool.or_eq_true, decide_eq_true_eq,
      UInt8.le_iff_toNat_le, ← UInt8.toNat_inj, UInt8.toNat_ofNat', UInt8.reduceToNat]
    omega

theorem validUTF8_utf8EncodeChar (c : Char) (rest : Text) :
    validUTF8 (String.utf8EncodeChar c ++ rest) = validUTF8 rest := by
  by_cases h : c.val.toNat ≤ 127
  · have hc : UInt8.ofNat c.val.toNat < 0x80 := by
      simp only [UInt8.lt_iff_toNat_lt, UInt8.toNat_ofNat', UInt8.reduceToNat]
      omega
    rw [String.utf8EncodeChar, if_pos h, validUTF8, singleton_append, runes_ascii hc]
    rfl
  · rw [validUTF8, runes_multi (multiByte_utf8EncodeChar (Nat.not_le.mp h))]
    rfl

theorem validUTF8_utf8 (s : String) : validUTF8 (utf8 s) := by
  rw [utf8_eq]
  induction s.toList with
  | nil => rfl
  | cons c rest ih => rw [flatMap_cons, validUTF8_utf8EncodeChar, ih]

theorem toValid_utf8 (s : String) : toValid (utf8 s) = utf8 s :=
  (toValid_eq_self_iff _).mpr (validUTF8_utf8 s)

/-- What `json.Unmarshal` may complain of. -/
inductive DecodeError
  | invalid
  | mismatch
  deriving DecidableEq

/-- A field: its name, and what a value does to the struct if it fits. -/
structure StructField (A : Type) where
  name : Text
  set : Text → A → Option A

/-- `foldRune` as far as ASCII is concerned: the long s and the Kelvin sign fold to letters. -/
def foldRune : Rune → Text
  | .ascii c _ => if 0x61 ≤ c ∧ c ≤ 0x7a then [c - 0x20] else [c]
  | .multi bytes _ =>
    if bytes = [0xc5, 0xbf] then [0x53] else if bytes = [0xe2, 0x84, 0xaa] then [0x4b] else bytes
  | .bad _ => replacement

def foldName (name : Text) : Text := (runes name).flatMap foldRune

section Decoding

variable {A B : Type}

/-- The field a member of this name goes to. -/
def findField (fields : List (StructField A)) (name : Text) : Option (StructField A) :=
  (fields.find? (·.name = name)).or (fields.find? (foldName ·.name = foldName name))

def setMember (fields : List (StructField A)) (a : A) (member : Text × Text) : Option A :=
  (unquote member.1).bind fun name =>
    match findField fields name with
    | none => some a
    | some field => field.set member.2 a

/-- A valid text that begins like this is `null`. -/
def isNull (value : Text) : Bool := value.head? = some 0x6e

/-- A valid value into a struct; `null` changes nothing. -/
def decodeStruct (fields : List (StructField A)) (a : A) (value : Text) : Option A :=
  if isNull value then some a
  else (objectMembers maxNestingDepth value).bind fun members => members.foldlM (setMember fields) a

def unmarshal (fields : List (StructField A)) (a : A) (text : Text) : Except DecodeError A :=
  if valid text then
    match decodeStruct fields a (skipSpaces text) with
    | some a => .ok a
    | none => .error .mismatch
  else .error .invalid

/-- A field that `null` leaves alone. -/
def orNull (read : Text → Option B) (set : B → A → A) (value : Text) (a : A) : Option A :=
  if isNull value then some a else (read value).map (set · a)

def stringField (name : Text) (set : Text → A → A) : StructField A := ⟨name, orNull unquote set⟩

def intField (name : Text) (set : Int → A → A) : StructField A := ⟨name, orNull parseInt set⟩

/-! ### A written struct -/

theorem isNull_objectText (members : List (Text × Text)) : isNull (objectText members) = false := rfl

theorem isNull_quote (text : Text) : isNull (quote text) = false := rfl

theorem isNull_intText (n : Int) : isNull (intText n) = false := by
  cases n with
  | negSucc n => rfl
  | ofNat n =>
    -- an `n` is no digit
    refine decide_eq_false fun hh => ?_
    have hd := (all_isDigit_natText n _ (mem_of_head? hh)).1
    exact absurd hd (by decide)

variable {fields : List (StructField A)} {field : StructField A} {members : List (Text × Text)}
  {P : A → Prop}

theorem setMember_quote (name : Text)
    (hvalid : validUTF8 name) (hf : findField fields name = some field) (a : A) (value : Text) :
    setMember fields a (quote name, value) = field.set value a := by
  have hn := (toValid_eq_self_iff name).mpr hvalid
  simp [setMember, unquote_quote, hn, hf]

theorem setMember_string (name : Text) {set : Text → A → A}
    (hvalid : validUTF8 name) (hf : findField fields name = some (stringField name set))
    (a : A) (text : Text) :
    setMember fields a (quote name, quote text) = some (set (toValid text) a) := by
  rw [setMember_quote name hvalid hf]
  simp [stringField, orNull, isNull_quote, unquote_quote]

theorem setMember_int (name : Text) {set : Int → A → A}
    (hvalid : validUTF8 name) (hf : findField fields name = some (intField name set))
    (a : A) (n : Int64) :
    setMember fields a (quote name, intText n.toInt) = some (set n.toInt a) := by
  rw [setMember_quote name hvalid hf]
  simp [intField, orNull, isNull_intText, parseInt_intText n.le_toInt n.toInt_lt]

theorem decodeStruct_objectText (h : ∀ m ∈ members, IsMember maxNestingDepth m) (a : A) :
    decodeStruct fields a (objectText members) = members.foldlM (setMember fields) a := by
  simp [decodeStruct, isNull_objectText, objectMembers_objectText h]

theorem unmarshal_eq_ok {limit : Nat}
    (hl : limit < maxNestingDepth) (h : ∀ m ∈ members, IsMember limit m) {a b : A}
    (hf : members.foldlM (setMember fields) a = some b) :
    unmarshal fields a (objectText members) = .ok b := by
  have hvalid : valid (objectText members) = true := ((isValue_objectText h).mono hl).accepts
  have hme : ∀ m ∈ members, IsMember maxNestingDepth m := fun m hm =>
    ⟨(h m hm).1, (h m hm).2.mono (Nat.le_of_lt hl)⟩
  have hs : skipSpaces (objectText members) = objectText members := skipSpaces_cons (by decide) _
  rw [unmarshal, if_pos hvalid, hs, decodeStruct_objectText hme, hf]

/-! ### What reading does not change -/

theorem mem_of_findField {name : Text}
    (h : findField fields name = some field) : field ∈ fields := by
  rcases Option.or_eq_some_iff.mp h with hf | ⟨-, hf⟩
  · exact mem_of_find?_eq_some hf
  · exact mem_of_find?_eq_some hf

def StructField.Keeps (field : StructField A) (P : A → Prop) : Prop :=
  ∀ value a a', field.set value a = some a' → P a → P a'

theorem orNull_keeps (name : Text) (read : Text → Option B) {set : B → A → A}
    (hs : ∀ b a, P a → P (set b a)) : (StructField.mk name (orNull read set)).Keeps P := by
  intro value a a' h ha
  simp only [orNull] at h
  split at h
  · exact Option.some.inj h ▸ ha
  · obtain ⟨b, -, rfl⟩ := Option.map_eq_some_iff.mp h
    exact hs b a ha

/-- Setting the field to a value that is accepted keeps `P`. -/
def StructField.KeepsValid (field : StructField A) (P : A → Prop) : Prop :=
  ∀ value a a', valid value → field.set value a = some a' → P a → P a'

theorem StructField.Keeps.keepsValid (h : field.Keeps P) : field.KeepsValid P :=
  fun value a a' _ => h value a a'

section Keeps

variable {fields : List (StructField A)} {P : A → Prop}

theorem setMember_keeps (hk : ∀ field ∈ fields, field.KeepsValid P) {member : Text × Text}
    {a a' : A} (hm : valid member.2) (h : setMember fields a member = some a') (ha : P a) :
    P a' := by
  obtain ⟨name, -, hs⟩ := Option.bind_eq_some_iff.mp h
  cases hf : findField fields name with
  | none =>
    rw [hf] at hs
    exact Option.some.inj hs ▸ ha
  | some field =>
    rw [hf] at hs
    exact hk field (mem_of_findField hf) member.2 a a' hm hs ha

theorem foldlM_setMember_keeps (hk : ∀ field ∈ fields, field.KeepsValid P)
    {members : List (Text × Text)} {a a' : A} (hme : ∀ m ∈ members, valid m.2)
    (h : members.foldlM (setMember fields) a = some a') (ha : P a) : P a' := by
  induction members generalizing a with
  | nil => exact Option.some.inj h ▸ ha
  | cons member members ih =>
    obtain ⟨a₁, hs, hrest⟩ := Option.bind_eq_some_iff.mp h
    have hf := setMember_keeps hk (hme member mem_cons_self) hs ha
    exact ih (fun m hm => hme m (mem_cons_of_mem _ hm)) hrest hf

theorem unmarshal_keeps (hk : ∀ field ∈ fields, field.KeepsValid P) {a a' : A}
    {text : Text} (h : unmarshal fields a text = .ok a') (ha : P a) : P a' := by
  unfold unmarshal at h
  split at h
  · split at h
    next b hd =>
      cases h
      unfold decodeStruct at hd
      split at hd
      · exact Option.some.inj hd ▸ ha
      · obtain ⟨members, hm, hf⟩ := Option.bind_eq_some_iff.mp hd
        exact foldlM_setMember_keeps hk (accepts_of_mem_objectMembers hm) hf ha
    · cases h
  · cases h

end Keeps

end Decoding

end Bib.Lib.Json
