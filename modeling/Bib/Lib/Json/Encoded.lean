import Bib.Lib.Base64
import Bib.Lib.Calendar
import Bib.Lib.Json.Struct

/-!
# Bib.Lib.Json.Encoded

**Byte slices and times as JSON**, both of them strings that need no escapes. `encoding/json` and
`time` also read forms that they do not write; these are a parameter (`Leniency`).
-/

namespace Bib.Lib.Json

open Bib.Lib.Calendar

def quoted (text : Text) : Text := 0x22 :: (text ++ [0x22])

def bytesText : Option (List UInt8) → Text
  | none => utf8 "null"
  | some bytes => quoted (Base64.encode bytes)

/-- What `encoding/json` and `time` accept beyond what they write themselves: a JSON array for
a byte slice, which may hold something already, and the less strict forms of a time. -/
structure Leniency where
  array : Text → Option (List UInt8) → Option (Option (List UInt8))
  time : Text → Option Stamp

def Leniency.strict : Leniency := ⟨fun _ _ => none, fun _ => none⟩

section Fields

variable {A : Type}

/-- A field that holds a byte slice: `null`, Base64 in a string, or an array. -/
def bytesField (other : Leniency) (name : Text) (get : A → Option (List UInt8))
    (set : Option (List UInt8) → A → A) : StructField A where
  name
  set value a :=
    if isNull value then some (set none a)
    else if value.head? = some 0x22 then
      ((unquote value).bind Base64.decode).map fun bytes => set (some bytes) a
    else (other.array value (get a)).map (set · a)

/-- A field that holds a time; escapes in the string are not undone. -/
def timeField (other : Leniency) (name : Text) (set : Stamp → A → A) : StructField A where
  name
  set value a :=
    if isNull value then some a
    else if value.length < 2 ∨ value.head? ≠ some 0x22 ∨ value.getLast? ≠ some 0x22 then none
    else
      let text := (value.drop 1).dropLast
      ((parse text).or (other.time text)).map (set · a)

end Fields

section Values

variable {text : Text}

theorem quoted_eq_quote (h : ∀ c ∈ text, isPlain c) : quoted text = quote text :=
  (quote_of_isPlain h).symm

theorem isPlain_of_isSymbol : ∀ n < 256, Base64.isSymbol (UInt8.ofNat n) → isPlain (UInt8.ofNat n) := by
  decide +kernel

theorem isPlain_encode (bytes : List UInt8) : ∀ c ∈ Base64.encode bytes, isPlain c := by
  intro c hc
  have hs := Base64.isSymbol_of_mem_encode bytes c hc
  have hp := isPlain_of_isSymbol c.toNat c.toNat_lt
  rw [UInt8.ofNat_toNat] at hp
  exact hp hs

theorem isValue_bytesText (data : Option (List UInt8)) : IsValue 0 (bytesText data) := by
  cases data with
  | none => exact ⟨⟨.endValue, []⟩, by decide, rfl⟩
  | some bytes =>
    rw [bytesText, quoted_eq_quote (isPlain_encode bytes)]
    exact (isString_quote _).isValue

theorem isValue_quoted_format {t : Stamp} (h : format t = some text) : IsValue 0 (quoted text) := by
  rw [quoted_eq_quote (isPlain_of_format h)]
  exact (isString_quote _).isValue

variable {A : Type} {fields : List (StructField A)}

theorem setMember_bytes (other : Leniency) (name : Text) {get : A → Option (List UInt8)}
    {set : Option (List UInt8) → A → A} (hvalid : validUTF8 name)
    (hf : findField fields name = some (bytesField other name get set))
    (a : A) (data : Option (List UInt8)) :
    setMember fields a (quote name, bytesText data) = some (set data a) := by
  rw [setMember_quote name hvalid hf]
  cases data with
  | none => rfl
  | some bytes =>
    have hp := isPlain_encode bytes
    have hread : unquote (bytesText (some bytes)) = some (Base64.encode bytes) := by
      rw [bytesText, quoted_eq_quote hp, unquote_quote, toValid_of_isPlain hp]
    have hn : isNull (bytesText (some bytes)) = false := rfl
    have hh : (bytesText (some bytes)).head? = some 0x22 := rfl
    simp [bytesField, hn, hh, hread, Base64.decode_encode]

theorem setMember_time (other : Leniency) (name : Text) {set : Stamp → A → A}
    (hvalid : validUTF8 name) (hf : findField fields name = some (timeField other name set))
    {t : Stamp} (h : format t = some text) (a : A) :
    setMember fields a (quote name, quoted text) = some (set t.received a) := by
  have hn : isNull (quoted text) = false := rfl
  have hlast : (quoted text).getLast? = some 0x22 := by
    show ((0x22 :: text) ++ [0x22]).getLast? = some 0x22
    exact List.getLast?_concat
  have hs : ¬ ((quoted text).length < 2 ∨ (quoted text).head? ≠ some 0x22 ∨
      (quoted text).getLast? ≠ some 0x22) := by
    simp [hlast]
    simp [quoted]
  have hi : ((quoted text).drop 1).dropLast = text := by
    exact List.dropLast_concat
  rw [setMember_quote name hvalid hf]
  simp only [timeField]
  rw [hn, if_neg (by decide), if_neg hs]
  simp only [hi, parse_format h, Option.some_or, Option.map_some]

variable {P : A → Prop}

theorem bytesField_keeps (other : Leniency) (name : Text)
    (get : A → Option (List UInt8)) {set : Option (List UInt8) → A → A}
    (hs : ∀ data a, P a → P (set data a)) : (bytesField other name get set).Keeps P := by
  intro value a a' h ha
  simp only [bytesField] at h
  split at h
  · cases h
    exact hs none a ha
  · split at h
    · obtain ⟨bytes, -, rfl⟩ := Option.map_eq_some_iff.mp h
      exact hs (some bytes) a ha
    · obtain ⟨data, -, rfl⟩ := Option.map_eq_some_iff.mp h
      exact hs data a ha

theorem timeField_keeps (other : Leniency) (name : Text) {set : Stamp → A → A}
    (hs : ∀ t a, P a → P (set t a)) : (timeField other name set).Keeps P := by
  intro value a a' h ha
  simp only [timeField] at h
  split at h
  · exact Option.some.inj h ▸ ha
  · split at h
    · cases h
    · obtain ⟨t, -, rfl⟩ := Option.map_eq_some_iff.mp h
      exact hs t a ha

end Values

end Bib.Lib.Json
