import Bib.Lib.Json.Scanner
import Mathlib.Data.Nat.Digits.Defs

/-!
# Bib.Lib.Json.Literal

**String and integer literals: how `encoding/json` writes them and reads them back.** A Go
string is a sequence of bytes, so a string is first cut into runes; a byte that belongs to
no well-formed UTF-8 sequence is a rune of its own, `bad`. Writing replaces it by U+FFFD,
hence reading a written string gives back `toValid` of it (`unquote_quote`), which is the
string itself exactly if it was well-formed (`toValid_eq_self_iff`).
-/

namespace Bib.Lib.Json

open List
open UInt8 (le_iff_toNat_le le_trans not_lt ofNat reduceToNat toNat_inj)

/-! ### UTF-8 -/

def isTail (b : UInt8) : Bool := 0x80 ≤ b && b ≤ 0xbf

/-- The well-formed sequences of two to four bytes. -/
def multiByte : Text → Bool
  | [a, b] => 0xc2 ≤ a && a ≤ 0xdf && isTail b
  | [a, b, c] =>
    (a = 0xe0 && 0xa0 ≤ b && b ≤ 0xbf || 0xe1 ≤ a && a ≤ 0xec && isTail b
      || a = 0xed && 0x80 ≤ b && b ≤ 0x9f || 0xee ≤ a && a ≤ 0xef && isTail b) && isTail c
  | [a, b, c, d] =>
    (a = 0xf0 && 0x90 ≤ b && b ≤ 0xbf || 0xf1 ≤ a && a ≤ 0xf3 && isTail b
      || a = 0xf4 && 0x80 ≤ b && b ≤ 0x8f) && isTail c && isTail d
  | _ => false

/-- A piece of a string as `utf8.DecodeRune` finds it. -/
inductive Rune
  | ascii (c : UInt8) (h : c < 0x80)
  | multi (bytes : Text) (h : multiByte bytes)
  /-- A byte that begins no well-formed sequence. -/
  | bad (c : UInt8)
  deriving DecidableEq

def Rune.bytes : Rune → Text
  | .ascii c _ => [c]
  | .multi bytes _ => bytes
  | .bad c => [c]

def replacement : Text := [0xef, 0xbf, 0xbd]

/-- The rune with an ill-formed byte replaced. -/
def Rune.text : Rune → Text
  | .ascii c _ => [c]
  | .multi bytes _ => bytes
  | .bad _ => replacement

def Rune.isValid : Rune → Bool
  | .bad _ => false
  | _ => true

/-- `utf8.DecodeRune` of a text that begins with `b`. -/
def decodeRune (b : UInt8) (rest : Text) : Rune :=
  if h : b < 0x80 then .ascii b h
  else if h : multiByte ((b :: rest).take 2) then .multi _ h
  else if h : multiByte ((b :: rest).take 3) then .multi _ h
  else if h : multiByte ((b :: rest).take 4) then .multi _ h
  else .bad b

/-- The runes of a text after `skip` bytes. -/
def runesFrom : Nat → Text → List Rune
  | _, [] => []
  | skip + 1, _ :: rest => runesFrom skip rest
  | 0, b :: rest => decodeRune b rest :: runesFrom ((decodeRune b rest).bytes.length - 1) rest

def runes (text : Text) : List Rune := runesFrom 0 text

def validUTF8 (text : Text) : Bool := (runes text).all Rune.isValid

/-- The text with every ill-formed byte replaced by U+FFFD. -/
def toValid (text : Text) : Text := (runes text).flatMap Rune.text

theorem runesFrom_eq (skip : Nat) (text : Text) : runesFrom skip text = runes (text.drop skip) := by
  induction skip generalizing text with
  | zero => rfl
  | succ skip ih =>
    cases text with
    | nil => rfl
    | cons b rest => exact ih rest

theorem runes_cons (b : UInt8) (rest : Text) : runes (b :: rest) =
      decodeRune b rest :: runes (rest.drop ((decodeRune b rest).bytes.length - 1)) := by
  rw [← runesFrom_eq]
  rfl

variable {a b c d letter : UInt8} {bytes : Text} {n : Nat}

/-- The lead byte tells the length of a sequence, and no byte of one is ASCII. -/
theorem multiByte_two (h : multiByte [a, b]) : 0xc2 ≤ a ∧ 0x80 ≤ b := by
  simp only [multiByte, isTail, Bool.and_eq_true, decide_eq_true_eq] at h
  exact ⟨h.1.1, h.2.1⟩

theorem multiByte_three (h : multiByte [a, b, c]) : 0xe0 ≤ a ∧ a ≤ 0xef ∧ 0x80 ≤ b ∧ 0x80 ≤ c := by
  simp only [multiByte, isTail, Bool.and_eq_true, Bool.or_eq_true, decide_eq_true_eq] at h
  simp only [le_iff_toNat_le, ← toNat_inj, reduceToNat] at h ⊢
  omega

theorem multiByte_four (h : multiByte [a, b, c, d]) : 0xf0 ≤ a ∧ 0x80 ≤ b ∧ 0x80 ≤ c ∧ 0x80 ≤ d := by
  simp only [multiByte, isTail, Bool.and_eq_true, Bool.or_eq_true, decide_eq_true_eq] at h
  simp only [le_iff_toNat_le, ← toNat_inj, reduceToNat] at h ⊢
  omega

theorem not_multiByte_two (h : 0xe0 ≤ a) : multiByte [a, b] = false := by
  simp only [multiByte, Bool.and_eq_false_iff, decide_eq_false_iff_not]
  refine .inl (.inr ?_)
  simp only [le_iff_toNat_le, reduceToNat] at h ⊢
  omega

theorem multiByte_shape (h : multiByte bytes) :
    (∃ a b, bytes = [a, b]) ∨ (∃ a b c, bytes = [a, b, c]) ∨ ∃ a b c d, bytes = [a, b, c, d] := by
  match bytes with
  | [] => cases h
  | [_] => cases h
  | [a, b] => exact .inl ⟨a, b, rfl⟩
  | [a, b, c] => exact .inr (.inl ⟨a, b, c, rfl⟩)
  | [a, b, c, d] => exact .inr (.inr ⟨a, b, c, d, rfl⟩)
  | _ :: _ :: _ :: _ :: _ :: _ => cases h

theorem le_of_mem_multiByte (h : multiByte bytes) : ∀ b ∈ bytes, 0x80 ≤ b := by
  have hle : ∀ {x y : UInt8}, (0x80 : UInt8) ≤ y → y ≤ x → 0x80 ≤ x := le_trans
  rcases multiByte_shape h with ⟨a, b, rfl⟩ | ⟨a, b, c, rfl⟩ | ⟨a, b, c, d, rfl⟩
  · have hl := multiByte_two h
    simp [hl.2, hle (by decide) hl.1]
  · have hl := multiByte_three h
    simp [hl, hle (by decide) hl.1]
  · have hl := multiByte_four h
    simp [hl, hle (by decide) hl.1]

theorem decodeRune_multi {rest : Text} (h : multiByte ((b :: rest).take n)) :
    (Rune.multi _ h).bytes = (b :: rest).take (Rune.multi _ h).bytes.length ∧
      0 < (Rune.multi _ h).bytes.length := by
  refine ⟨?_, length_pos_iff.mpr ?_⟩
  · show (b :: rest).take n = (b :: rest).take ((b :: rest).take n).length
    rw [length_take, ← take_eq_take_min]
  · intro hn
    rw [show (b :: rest).take n = [] from hn] at h
    cases h

theorem bytes_decodeRune (b : UInt8) (rest : Text) :
    (decodeRune b rest).bytes = (b :: rest).take (decodeRune b rest).bytes.length ∧
      0 < (decodeRune b rest).bytes.length := by
  unfold decodeRune
  split_ifs with h₁ h₂ h₃ h₄
  · exact ⟨rfl, Nat.one_pos⟩
  · exact decodeRune_multi h₂
  · exact decodeRune_multi h₃
  · exact decodeRune_multi h₄
  · exact ⟨rfl, Nat.one_pos⟩

theorem flatMap_bytes_runes (text : Text) : (runes text).flatMap Rune.bytes = text := by
  induction h : text.length using Nat.strong_induction_on generalizing text with
  | _ n ih =>
    subst h
    cases text with
    | nil => rfl
    | cons b rest =>
      obtain ⟨hb, hp⟩ := bytes_decodeRune b rest
      have hd : rest.drop ((decodeRune b rest).bytes.length - 1) =
          (b :: rest).drop (decodeRune b rest).bytes.length := by
        obtain ⟨k, hk⟩ := Nat.exists_eq_succ_of_ne_zero (Nat.pos_iff_ne_zero.mp hp)
        rw [hk]
        rfl
      rw [runes_cons, flatMap_cons, hd, ih _ (by simp; omega) _ rfl]
      nth_rewrite 1 [hb]
      exact take_append_drop _ _

theorem runes_ascii (h : c < 0x80) (rest : Text) : runes (c :: rest) = .ascii c h :: runes rest := by
  have hr : decodeRune c rest = .ascii c h := dif_pos h
  rw [runes_cons, hr]
  rfl

theorem decodeRune_two (h : multiByte [a, b]) (rest : Text) : decodeRune a (b :: rest) = .multi [a, b] h := by
  have hge := le_of_mem_multiByte h a (by simp)
  rw [decodeRune, dif_neg (not_lt.mpr hge), dif_pos (show multiByte ((a :: b :: rest).take 2) from h)]
  rfl

theorem decodeRune_three (h : multiByte [a, b, c]) (rest : Text) :
    decodeRune a (b :: c :: rest) = .multi [a, b, c] h := by
  have hge := le_of_mem_multiByte h a (by simp)
  have h2 : ¬ multiByte ((a :: b :: c :: rest).take 2) := by
    simp [not_multiByte_two (multiByte_three h).1]
  rw [decodeRune, dif_neg (not_lt.mpr hge), dif_neg h2,
    dif_pos (show multiByte ((a :: b :: c :: rest).take 3) from h)]
  rfl

theorem decodeRune_four (h : multiByte [a, b, c, d]) (rest : Text) :
    decodeRune a (b :: c :: d :: rest) = .multi [a, b, c, d] h := by
  have hge := le_of_mem_multiByte h a (by simp)
  have hl := (multiByte_four h).1
  have h2 : ¬ multiByte ((a :: b :: c :: d :: rest).take 2) := by
    simp [not_multiByte_two (le_trans (by decide) hl)]
  have h3 : ¬ multiByte ((a :: b :: c :: d :: rest).take 3) := by
    intro ht
    exact absurd (le_trans hl (multiByte_three ht).2.1) (by decide)
  rw [decodeRune, dif_neg (not_lt.mpr hge), dif_neg h2, dif_neg h3,
    dif_pos (show multiByte ((a :: b :: c :: d :: rest).take 4) from h)]
  rfl

theorem runes_multi (h : multiByte bytes) (rest : Text) : runes (bytes ++ rest) = .multi bytes h :: runes rest := by
  rcases multiByte_shape h with ⟨a, b, rfl⟩ | ⟨a, b, c, rfl⟩ | ⟨a, b, c, d, rfl⟩
  · show runes (a :: b :: rest) = _
    rw [runes_cons, decodeRune_two h]
    rfl
  · show runes (a :: b :: c :: rest) = _
    rw [runes_cons, decodeRune_three h]
    rfl
  · show runes (a :: b :: c :: d :: rest) = _
    rw [runes_cons, decodeRune_four h]
    rfl

/-! ### Ill-formed bytes -/

theorem Rune.length_bytes_le (r : Rune) : r.bytes.length ≤ r.text.length := by
  cases r with
  | bad c => simp [Rune.bytes, Rune.text, replacement]
  | _ => exact le_rfl

theorem length_flatMap_bytes_le (rs : List Rune) :
    (rs.flatMap Rune.bytes).length ≤ (rs.flatMap Rune.text).length := by
  induction rs with
  | nil => exact le_rfl
  | cons r rs ih =>
    have := r.length_bytes_le
    simp only [flatMap_cons, length_append]
    omega

/-- Runes come out unchanged exactly if none is an ill-formed byte. -/
theorem flatMap_text_eq_bytes_iff (rs : List Rune) :
    rs.flatMap Rune.text = rs.flatMap Rune.bytes ↔ rs.all Rune.isValid := by
  induction rs with
  | nil => simp
  | cons r rs ih =>
    simp only [flatMap_cons, all_cons, Bool.and_eq_true]
    cases r with
    | bad c =>
      simp only [Rune.isValid, Bool.false_eq_true, false_and, iff_false]
      -- the replacement is longer than the byte, and nothing after it gets shorter
      intro heq
      have hlen := congrArg length heq
      have hle := length_flatMap_bytes_le rs
      simp only [Rune.bytes, Rune.text, replacement, length_append, length_cons, length_nil] at hlen
      omega
    | _ => simpa [Rune.text, Rune.bytes, Rune.isValid] using ih

/-- A string is unchanged exactly if it is well-formed: every replaced byte makes it longer. -/
theorem toValid_eq_self_iff (text : Text) : toValid text = text ↔ validUTF8 text := by
  have hi := flatMap_text_eq_bytes_iff (runes text)
  rwa [flatMap_bytes_runes] at hi

/-! ### Writing a string -/

def hexDigit (d : Nat) : UInt8 := (if d < 10 then 0x30 + d else 0x57 + d).toUInt8

/-- `\u` and four hexadecimal digits. -/
def unicodeEscape (n : Nat) : Text :=
  [0x5c, 0x75, hexDigit (n / 4096 % 16), hexDigit (n / 256 % 16), hexDigit (n / 16 % 16),
    hexDigit (n % 16)]

def escapeLetter (c : UInt8) : Option UInt8 :=
  if c = 0x22 || c = 0x5c then some c
  else if c = 0x08 then some 0x62
  else if c = 0x0c then some 0x66
  else if c = 0x0a then some 0x6e
  else if c = 0x0d then some 0x72
  else if c = 0x09 then some 0x74
  else none

/-- One rune inside a string literal, with HTML escaping on. -/
def quoteRune : Rune → Text
  | .ascii c _ =>
    match escapeLetter c with
    | some letter => [0x5c, letter]
    | none => if c < 0x20 || c = 0x3c || c = 0x3e || c = 0x26 then unicodeEscape c.toNat else [c]
  | .multi bytes _ =>
    if bytes = [0xe2, 0x80, 0xa8] then unicodeEscape 0x2028
    else if bytes = [0xe2, 0x80, 0xa9] then unicodeEscape 0x2029
    else bytes
  | .bad _ => unicodeEscape 0xfffd

/-- A string as `json.Marshal` writes it. -/
def quote (text : Text) : Text := 0x22 :: ((runes text).flatMap quoteRune ++ [0x22])

/-! ### Reading a string -/

/-- A piece of a string literal: bytes, or the UTF-16 code unit of a `\u` escape. -/
inductive Piece
  | bytes (text : Text)
  | unit (n : Nat)

def hexValue : Rune → Option Nat
  | .ascii c _ =>
    if 0x30 ≤ c ∧ c ≤ 0x39 then some (c.toNat - 0x30)
    else if 0x61 ≤ c ∧ c ≤ 0x66 then some (c.toNat - 0x57)
    else if 0x41 ≤ c ∧ c ≤ 0x46 then some (c.toNat - 0x37)
    else none
  | _ => none

def hexValue4 (a b c d : Rune) : Option Nat := do
  let a ← hexValue a
  let b ← hexValue b
  let c ← hexValue c
  let d ← hexValue d
  return a * 4096 + b * 256 + c * 16 + d

def escapedByte (c : UInt8) : Option UInt8 :=
  if c = 0x22 || c = 0x5c || c = 0x2f || c = 0x27 then some c
  else if c = 0x62 then some 0x08
  else if c = 0x66 then some 0x0c
  else if c = 0x6e then some 0x0a
  else if c = 0x72 then some 0x0d
  else if c = 0x74 then some 0x09
  else none

/-- The pieces of a string literal between its quotes. -/
def pieces : List Rune → Option (List Piece)
  | [] => some []
  | .multi bytes _ :: rest => (pieces rest).map (.bytes bytes :: ·)
  | .bad _ :: rest => (pieces rest).map (.bytes replacement :: ·)
  | .ascii c _ :: rest =>
    if c = 0x5c then
      match rest with
      | .ascii letter _ :: rest =>
        if letter = 0x75 then
          match rest with
          | a :: b :: c :: d :: rest =>
            (hexValue4 a b c d).bind fun n => (pieces rest).map (.unit n :: ·)
          | _ => none
        else (escapedByte letter).bind fun byte => (pieces rest).map (.bytes [byte] :: ·)
      | _ => none
    else if c = 0x22 || c < 0x20 then none
    else (pieces rest).map (.bytes [c] :: ·)

/-- `utf8.AppendRune` of a code point that is no surrogate. -/
def encodeRune (n : Nat) : Text :=
  if n < 0x80 then [n.toUInt8]
  else if n < 0x800 then [(0xc0 + n / 64).toUInt8, (0x80 + n % 64).toUInt8]
  else if n < 0x10000 then
    [(0xe0 + n / 4096).toUInt8, (0x80 + n / 64 % 64).toUInt8, (0x80 + n % 64).toUInt8]
  else
    [(0xf0 + n / 262144).toUInt8, (0x80 + n / 4096 % 64).toUInt8, (0x80 + n / 64 % 64).toUInt8,
      (0x80 + n % 64).toUInt8]

def isSurrogate (n : Nat) : Bool := 0xd800 ≤ n && n < 0xe000

def unitText (n : Nat) : Text := if isSurrogate n then replacement else encodeRune n

/-- The code point of a surrogate pair (`utf16.DecodeRune`). -/
def surrogatePair (n m : Nat) : Option Nat :=
  if 0xd800 ≤ n ∧ n < 0xdc00 ∧ 0xdc00 ≤ m ∧ m < 0xe000 then
    some ((n - 0xd800) * 1024 + (m - 0xdc00) + 0x10000)
  else none

/-- The text of the pieces; two code units that are a surrogate pair are one rune. -/
def joinPieces : List Piece → Text
  | [] => []
  | .bytes text :: rest => text ++ joinPieces rest
  | .unit n :: .unit m :: rest =>
    match surrogatePair n m with
    | some point => encodeRune point ++ joinPieces rest
    | none => unitText n ++ joinPieces (.unit m :: rest)
  | .unit n :: rest => unitText n ++ joinPieces rest

/-- A string literal as `json.Unmarshal` reads it. -/
def unquote (literal : Text) : Option Text :=
  match literal with
  | 0x22 :: rest =>
    if rest.getLast? = some 0x22 then (pieces (runes rest.dropLast)).map joinPieces else none
  | _ => none

example : unquote (quote [0x61, 0x22, 0x3c, 0xc3, 0xa9, 0xff]) =
    some [0x61, 0x22, 0x3c, 0xc3, 0xa9, 0xef, 0xbf, 0xbd] := by
  decide

/-! ### What is written is read -/

theorem joinPieces_unit (h : isSurrogate n = false) (rest : List Piece) :
    joinPieces (.unit n :: rest) = encodeRune n ++ joinPieces rest := by
  have hu : unitText n = encodeRune n := by simp [unitText, h]
  have hp : ∀ m, surrogatePair n m = none := by
    intro m
    simp only [isSurrogate, Bool.and_eq_false_iff, decide_eq_false_iff_not] at h
    exact if_neg (by omega)
  cases rest with
  | nil => simp [joinPieces, hu]
  | cons p rest =>
    cases p with
    | bytes text => simp [joinPieces, hu]
    | unit m => simp [joinPieces, hp, hu]

theorem pieces_plain (hc : c < 0x80) (hs : c ≠ 0x5c) (hq : c ≠ 0x22) (hct : ¬ c < 0x20) (rest : Text) :
    pieces (runes (c :: rest)) = (pieces (runes rest)).map (.bytes [c] :: ·) := by
  rw [runes_ascii hc, pieces.eq_def]
  simp [hs, hq, hct]

theorem pieces_escape {byte : UInt8} (hl : letter < 0x80) (hu : letter ≠ 0x75)
    (hb : escapedByte letter = some byte) (rest : Text) :
    pieces (runes (0x5c :: letter :: rest)) = (pieces (runes rest)).map (.bytes [byte] :: ·) := by
  rw [runes_ascii (show (0x5c : UInt8) < 0x80 by decide), runes_ascii hl, pieces.eq_def]
  simp [hu, hb]

theorem hexDigit_lt : ∀ d < 16, hexDigit d < 0x80 := by decide

theorem hexValue_hexDigit : ∀ d, (h : d < 16) → hexValue (.ascii (hexDigit d) (hexDigit_lt d h)) = some d := by
  decide

theorem pieces_unicodeEscape (hn : n < 65536) (rest : Text) :
    pieces (runes (unicodeEscape n ++ rest)) = (pieces (runes rest)).map (.unit n :: ·) := by
  have hd : ∀ k, k % 16 < 16 := fun k => Nat.mod_lt k (by decide)
  have hv : n / 4096 % 16 * 4096 + n / 256 % 16 * 256 + n / 16 % 16 * 16 + n % 16 = n := by
    omega
  simp only [unicodeEscape, cons_append, nil_append]
  rw [runes_ascii (by decide), runes_ascii (by decide), runes_ascii (hexDigit_lt _ (hd _)),
    runes_ascii (hexDigit_lt _ (hd _)), runes_ascii (hexDigit_lt _ (hd _)),
    runes_ascii (hexDigit_lt _ (hd _))]
  simp [pieces, hexValue4, hexValue_hexDigit, hd, hv]

theorem escapeLetter_spec (h : escapeLetter c = some letter) :
    letter < 0x80 ∧ letter ≠ 0x75 ∧ escapedByte letter = some c ∧ isEscape letter := by
  simp only [escapeLetter, Bool.or_eq_true, decide_eq_true_eq] at h
  split_ifs at h with h₁ h₂ h₃ h₄ h₅ h₆
  · cases h
    rcases h₁ with rfl | rfl <;> decide
  all_goals
    cases h
    subst_vars
    decide

theorem escapeLetter_eq_none (h : escapeLetter c = none) : c ≠ 0x22 ∧ c ≠ 0x5c := by
  constructor <;>
  · intro heq
    subst heq
    cases h

theorem pieces_quoteRune (r : Rune) : ∃ piece,
    (∀ rest, pieces (runes (quoteRune r ++ rest)) = (pieces (runes rest)).map (piece :: ·)) ∧
    ∀ rest, joinPieces (piece :: rest) = r.text ++ joinPieces rest := by
  cases r with
  | bad c => exact ⟨.unit 0xfffd, pieces_unicodeEscape (by decide), joinPieces_unit (by decide)⟩
  | multi bytes h =>
    simp only [quoteRune]
    split_ifs with h₁ h₂
    · subst h₁
      exact ⟨.unit 0x2028, pieces_unicodeEscape (by decide), joinPieces_unit (by decide)⟩
    · subst h₂
      exact ⟨.unit 0x2029, pieces_unicodeEscape (by decide), joinPieces_unit (by decide)⟩
    · exact ⟨.bytes bytes, fun rest => by rw [runes_multi h]; rfl, fun rest => rfl⟩
  | ascii c hc =>
    simp only [quoteRune]
    cases hl : escapeLetter c with
    | some letter =>
      obtain ⟨hlt, hu, hb, -⟩ := escapeLetter_spec hl
      exact ⟨.bytes [c], pieces_escape hlt hu hb, fun rest => rfl⟩
    | none =>
      obtain ⟨hq, hs⟩ := escapeLetter_eq_none hl
      split_ifs with hun
      · have hlt : c.toNat < 128 := UInt8.lt_iff_toNat_lt.mp hc
        refine ⟨.unit c.toNat, pieces_unicodeEscape (by omega), fun rest => ?_⟩
        rw [joinPieces_unit (by simp [isSurrogate]; omega)]
        simp [encodeRune, hlt, Rune.text]
      · simp only [Bool.or_eq_true, decide_eq_true_eq, not_or] at hun
        exact ⟨.bytes [c], pieces_plain hc hs hq hun.1.1.1, fun rest => rfl⟩

theorem pieces_quoteRunes (rs : List Rune) : ∃ ps,
    pieces (runes (rs.flatMap quoteRune)) = some ps ∧ joinPieces ps = rs.flatMap Rune.text := by
  induction rs with
  | nil => exact ⟨[], rfl, rfl⟩
  | cons r rs ih =>
    obtain ⟨ps, hps, ht⟩ := ih
    obtain ⟨piece, hread, hj⟩ := pieces_quoteRune r
    refine ⟨piece :: ps, ?_, ?_⟩
    · rw [flatMap_cons, hread, hps]
      rfl
    · rw [hj, ht, flatMap_cons]

/-- **A written string is read back**, with its ill-formed bytes replaced. -/
theorem unquote_quote (text : Text) : unquote (quote text) = some (toValid text) := by
  obtain ⟨ps, hps, ht⟩ := pieces_quoteRunes (runes text)
  simp [unquote, quote, hps, ht, toValid]

/-! ### Literals are values -/

/-- A string literal: a quote, and bytes that lead to the end of the literal whatever
brackets are open. -/
def IsString (text : Text) : Prop :=
  ∃ rest, text = 0x22 :: rest ∧
    ∀ limit stack, tightRun limit ⟨.inString, stack⟩ rest = some ⟨.endValue, stack⟩

section Runs

variable {limit : Nat} {stack : List Frame}

theorem tightStep_inString {c : UInt8} (hq : c ≠ 0x22) (hs : c ≠ 0x5c) (hc : ¬ c < 0x20) :
    tightStep limit ⟨.inString, stack⟩ c = some ⟨.inString, stack⟩ := by
  have hmove : move .inString c = .goto .inString := by simp [move, hq, hs, hc]
  exact tightStep_goto hmove (fun _ => rfl) limit stack

theorem tightRun_inString {bytes : Text} (h : ∀ b ∈ bytes, 0x80 ≤ b) :
    tightRun limit ⟨.inString, stack⟩ bytes = some ⟨.inString, stack⟩ := by
  induction bytes with
  | nil => rfl
  | cons b rest ih =>
    have hb := h b (by simp)
    have hp : tightStep limit ⟨.inString, stack⟩ b = some ⟨.inString, stack⟩ := by
      have hne : ∀ d : UInt8, ¬ 0x80 ≤ d → b ≠ d := fun d hd heq => hd (heq ▸ hb)
      refine tightStep_inString (hne _ (by decide)) (hne _ (by decide)) fun hlt => ?_
      exact absurd (UInt8.lt_of_le_of_lt hb hlt) (by decide)
    rw [tightRun, hp]
    exact ih fun b hb => h b (by simp [hb])

theorem isHex_hexDigit : ∀ d < 16, isHex (hexDigit d) = true ∧ isSpace (hexDigit d) = false := by
  decide

theorem tightRun_unicodeEscape (n : Nat) :
    tightRun limit ⟨.inString, stack⟩ (unicodeEscape n) = some ⟨.inString, stack⟩ := by
  have hh : ∀ {state state' : State}, (∀ c, move state c = expectHex state' c) → ∀ k,
      tightStep limit ⟨state, stack⟩ (hexDigit (k % 16)) = some ⟨state', stack⟩ := by
    intro state state' hmove k
    obtain ⟨hh, hs⟩ := isHex_hexDigit (k % 16) (Nat.mod_lt k (by decide))
    exact tightStep_goto (by simp [hmove, expectHex, hh]) (by simp [hs]) limit stack
  rw [unicodeEscape, tightRun_cons (tightStep_goto rfl (by decide) limit stack),
    tightRun_cons (tightStep_goto rfl (by decide) limit stack),
    tightRun_cons (hh (fun _ => rfl) _), tightRun_cons (hh (fun _ => rfl) _),
    tightRun_cons (hh (fun _ => rfl) _), tightRun_cons (hh (fun _ => rfl) _)]
  rfl

theorem tightRun_quoteRune (r : Rune) :
    tightRun limit ⟨.inString, stack⟩ (quoteRune r) = some ⟨.inString, stack⟩ := by
  cases r with
  | bad c => exact tightRun_unicodeEscape _
  | multi bytes h =>
    simp only [quoteRune]
    split_ifs
    · exact tightRun_unicodeEscape _
    · exact tightRun_unicodeEscape _
    · exact tightRun_inString (le_of_mem_multiByte h)
  | ascii c hc =>
    simp only [quoteRune]
    cases hl : escapeLetter c with
    | some letter =>
      obtain ⟨-, -, -, he⟩ := escapeLetter_spec hl
      have hsp : isSpace letter = false := by
        simp only [isEscape, Bool.or_eq_true, decide_eq_true_eq] at he
        rcases he with ((((((rfl | rfl) | rfl) | rfl) | rfl) | rfl) | rfl) | rfl <;> rfl
      have hmove : move .inStringEsc letter = .goto .inString := if_pos he
      rw [tightRun_cons (tightStep_goto rfl (by decide) limit stack),
        tightRun_cons (tightStep_goto hmove (by simp [hsp]) limit stack)]
      rfl
    | none =>
      obtain ⟨hq, hs⟩ := escapeLetter_eq_none hl
      split_ifs with hu
      · exact tightRun_unicodeEscape _
      · simp only [Bool.or_eq_true, decide_eq_true_eq, not_or] at hu
        simp [tightRun, tightStep_inString hq hs hu.1.1.1]

theorem tightRun_quoteRunes (rs : List Rune) :
    tightRun limit ⟨.inString, stack⟩ (rs.flatMap quoteRune) = some ⟨.inString, stack⟩ := by
  induction rs with
  | nil => rfl
  | cons r rs ih => simp [tightRun_append, tightRun_quoteRune, ih]

theorem isString_quote (text : Text) : IsString (quote text) := by
  refine ⟨(runes text).flatMap quoteRune ++ [0x22], rfl, fun limit stack => ?_⟩
  rw [tightRun_append, tightRun_quoteRunes]
  rfl

theorem IsString.isValue {text : Text} (h : IsString text) : IsValue limit text := by
  obtain ⟨rest, rfl, hr⟩ := h
  exact ⟨⟨.endValue, []⟩, hr limit [], rfl⟩

end Runs

/-! ### Plain text -/

def isPlain (c : UInt8) : Bool :=
  0x20 ≤ c && c < 0x80 && c ≠ 0x22 && c ≠ 0x5c && c ≠ 0x3c && c ≠ 0x3e && c ≠ 0x26

section Plain

variable {text : Text} {c : UInt8}

theorem lt_of_isPlain (h : isPlain c) : c < 0x80 := by
  simp only [isPlain, Bool.and_eq_true, decide_eq_true_eq] at h
  exact h.1.1.1.1.1.2

theorem escapes_of_isPlain : ∀ n < 256, isPlain (ofNat n) →
    escapeLetter (ofNat n) = none ∧ ¬ (ofNat n < 0x20 || ofNat n = 0x3c ||
      ofNat n = 0x3e || ofNat n = 0x26) := by
  decide +kernel

theorem quoteRune_of_isPlain (h : isPlain c) (hc : c < 0x80) : quoteRune (.ascii c hc) = [c] := by
  obtain ⟨hl, hu⟩ := escapes_of_isPlain c.toNat c.toNat_lt (by rwa [UInt8.ofNat_toNat])
  rw [UInt8.ofNat_toNat] at hl hu
  simp only [quoteRune, hl]
  rw [if_neg hu]

theorem quote_of_isPlain (h : ∀ c ∈ text, isPlain c) : quote text = 0x22 :: (text ++ [0x22]) := by
  have hf : (runes text).flatMap quoteRune = text := by
    induction text with
    | nil => rfl
    | cons c text ih =>
      have hc := h c (by simp)
      rw [runes_ascii (lt_of_isPlain hc), flatMap_cons, quoteRune_of_isPlain hc,
        ih fun c hc => h c (by simp [hc])]
      rfl
  rw [quote, hf]

theorem toValid_of_isPlain (h : ∀ c ∈ text, isPlain c) : toValid text = text := by
  induction text with
  | nil => rfl
  | cons c text ih =>
    have ht : toValid text = text := ih fun c hc => h c (by simp [hc])
    rw [toValid] at ht ⊢
    rw [runes_ascii (lt_of_isPlain (h c (by simp))), flatMap_cons, ht]
    rfl

end Plain

/-! ### Integers -/

def digit (d : Nat) : UInt8 := (0x30 + d).toUInt8

def natText (n : Nat) : Text := (Nat.toDigits 10 n).map Char.toUInt8

/-- An integer as `json.Marshal` writes it. -/
def intText : Int → Text
  | .ofNat n => natText n
  | .negSucc n => 0x2d :: natText (n + 1)

def natValue (digits : Text) : Nat := digits.foldl (fun value c => 10 * value + (c.toNat - 0x30)) 0

/-- `strconv.ParseInt` in base ten with 64 bits, on a JSON number. -/
def parseInt (text : Text) : Option Int :=
  let negative := text.head? = some 0x2d
  let digits := if negative then text.tail else text
  if digits = [] ∨ ¬ digits.all isDigit then none
  else
    let value : Int := if negative then -natValue digits else natValue digits
    if -2 ^ 63 ≤ value ∧ value < 2 ^ 63 then some value else none

theorem toUInt8_digitChar : ∀ d < 10, (Nat.digitChar d).toUInt8 = digit d := by decide

theorem digit_spec : ∀ d < 10, isDigit (digit d) = true ∧ isSpace (digit d) = false ∧
    digit d ≠ 0x2d ∧ (digit d).toNat - 0x30 = d := by
  decide

theorem natText_of_lt (h : n < 10) : natText n = [digit n] := by
  rw [natText, Nat.toDigits_of_lt_base h]
  simp [toUInt8_digitChar n h]

theorem natText_of_le (h : 10 ≤ n) : natText n = natText (n / 10) ++ [digit (n % 10)] := by
  rw [natText, Nat.toDigits_of_base_le (by decide) h]
  simp [natText, toUInt8_digitChar (n % 10) (Nat.mod_lt n (by decide))]

theorem all_isDigit_natText (n : Nat) : ∀ c ∈ natText n, isDigit c = true ∧ c ≠ 0x2d := by
  induction n using Nat.strong_induction_on with
  | _ n ih =>
    intro c hc
    rcases Nat.lt_or_ge n 10 with hlt | hge
    · rw [natText_of_lt hlt, mem_singleton] at hc
      subst hc
      exact ⟨(digit_spec n hlt).1, (digit_spec n hlt).2.2.1⟩
    · rw [natText_of_le hge, mem_append, mem_singleton] at hc
      rcases hc with hc | rfl
      · exact ih (n / 10) (by omega) c hc
      · have hlast := digit_spec (n % 10) (Nat.mod_lt n (by decide))
        exact ⟨hlast.1, hlast.2.2.1⟩

theorem natText_ne_nil (n : Nat) : natText n ≠ [] := by
  rcases Nat.lt_or_ge n 10 with hlt | hge
  · simp [natText_of_lt hlt]
  · simp [natText_of_le hge]

theorem natValue_natText (n : Nat) : natValue (natText n) = n := by
  induction n using Nat.strong_induction_on with
  | _ n ih =>
    rcases Nat.lt_or_ge n 10 with hlt | hge
    · simp [natText_of_lt hlt, natValue, (digit_spec n hlt).2.2.2]
    · have hf := ih (n / 10) (by omega)
      have hlast := (digit_spec (n % 10) (Nat.mod_lt n (by decide))).2.2.2
      rw [natValue] at hf
      rw [natText_of_le hge, natValue, foldl_append]
      simp only [foldl_cons, foldl_nil, hlast]
      omega

/-- **A written integer of 64 bits is read back.** -/
theorem parseInt_intText {n : Int} (hl : -2 ^ 63 ≤ n) (hhi : n < 2 ^ 63) : parseInt (intText n) = some n := by
  have hd : ∀ n, (natText n).all isDigit = true := fun n =>
    all_eq_true.mpr fun c hc => (all_isDigit_natText n c hc).1
  cases n with
  | ofNat n =>
    have hh : ¬ (natText n).head? = some 0x2d := by
      intro h
      exact (all_isDigit_natText n _ (mem_of_head? h)).2 rfl
    simp only [parseInt, intText, hh, if_false, hd, natText_ne_nil, not_true_eq_false, or_self,
      natValue_natText]
    exact if_pos ⟨hl, hhi⟩
  | negSucc n =>
    simp only [parseInt, intText, head?_cons, if_true, tail_cons, hd, natText_ne_nil,
      not_true_eq_false, or_self, if_false, natValue_natText]
    exact if_pos ⟨hl, hhi⟩

theorem tightRun_natText {state : State}
    (hf : ∀ d < 10, move state (digit d) = .goto (if d = 0 then .zero else .one)) (limit : Nat)
    (stack : List Frame) (n : Nat) : tightRun limit ⟨state, stack⟩ (natText n) =
      some ⟨if n = 0 then .zero else .one, stack⟩ := by
  induction n using Nat.strong_induction_on with
  | _ n ih =>
    rcases Nat.lt_or_ge n 10 with hlt | hge
    · rw [natText_of_lt hlt]
      have hs := (digit_spec n hlt).2.1
      rw [tightRun_cons (tightStep_goto (hf n hlt) (by simp [hs]) limit stack)]
      rfl
    · have hlast := digit_spec (n % 10) (Nat.mod_lt n (by decide))
      have hg : move .one (digit (n % 10)) = .goto .one := by simp [move, hlast.1]
      rw [natText_of_le hge, tightRun_append, ih (n / 10) (by omega), if_neg (by omega),
        Option.bind_some, tightRun_cons (tightStep_goto hg (by simp [hlast.2.1]) limit stack),
        if_neg (by omega)]
      rfl

theorem isValue_intText (limit : Nat) (n : Int) : IsValue limit (intText n) := by
  cases n with
  | ofNat n =>
    refine ⟨_, tightRun_natText (by decide) limit [] n, ?_⟩
    split <;> rfl
  | negSucc n =>
    have hn : tightStep limit .start 0x2d = some ⟨.neg, []⟩ := rfl
    refine ⟨⟨.one, []⟩, ?_, rfl⟩
    rw [intText, tightRun_cons hn, tightRun_natText (by decide) limit [] (n + 1)]
    rfl

end Bib.Lib.Json
