import Mathlib.Tactic.Common

/-!
# Bib.Lib.Base64

**Base64 with the standard alphabet and padding** (RFC 4648, section 4), on bytes.

Reading ignores line breaks wherever they stand and does not look at the bits that the last
character has too many. What is written is read back (`decode_encode`).
-/

namespace Bib.Lib.Base64

/-! ### The alphabet -/

/-- The character of six bits. -/
def symbol (v : Nat) : UInt8 :=
  if v < 26 then (0x41 + v).toUInt8
  else if v < 52 then (0x61 + (v - 26)).toUInt8
  else if v < 62 then (0x30 + (v - 52)).toUInt8
  else if v = 62 then 0x2b
  else 0x2f

/-- The six bits of a character. -/
def value (c : UInt8) : Option Nat :=
  if 0x41 ≤ c ∧ c ≤ 0x5a then some (c.toNat - 0x41)
  else if 0x61 ≤ c ∧ c ≤ 0x7a then some (c.toNat - 0x61 + 26)
  else if 0x30 ≤ c ∧ c ≤ 0x39 then some (c.toNat - 0x30 + 52)
  else if c = 0x2b then some 62
  else if c = 0x2f then some 63
  else none

def pad : UInt8 := 0x3d

def isBreak (c : UInt8) : Bool := c = 0x0a || c = 0x0d

def isSymbol (c : UInt8) : Bool := (value c).isSome || c = pad

theorem value_symbol : ∀ v < 64, value (symbol v) = some v := by decide

theorem isBreak_of_isSymbol {c : UInt8} (h : isSymbol c) : isBreak c = false := by
  rw [Bool.eq_false_iff]
  intro hb
  simp only [isBreak, Bool.or_eq_true, decide_eq_true_eq] at hb
  rcases hb with rfl | rfl
  · cases h
  · cases h

/-! ### Writing and reading -/

/-- Six bits of a number, those that count `unit`. -/
def sextet (unit n : Nat) : Nat := n / unit % 64

/-- Eight bits of a number, those that count `unit`. -/
def octet (unit n : Nat) : UInt8 := (n / unit % 256).toUInt8

def pack (a b c : UInt8) : Nat := a.toNat * 65536 + b.toNat * 256 + c.toNat

def encode : List UInt8 → List UInt8
  | [] => []
  | [a] =>
    let n := pack a 0 0
    [symbol (sextet 262144 n), symbol (sextet 4096 n), pad, pad]
  | [a, b] =>
    let n := pack a b 0
    [symbol (sextet 262144 n), symbol (sextet 4096 n), symbol (sextet 64 n), pad]
  | a :: b :: c :: rest =>
    let n := pack a b c
    symbol (sextet 262144 n) :: symbol (sextet 4096 n) :: symbol (sextet 64 n) ::
      symbol (sextet 1 n) :: encode rest

/-- Reading a text without line breaks. Padding stands at the end only. -/
def decodeQuads : List UInt8 → Option (List UInt8)
  | [] => some []
  | c₀ :: c₁ :: c₂ :: c₃ :: rest => do
    let v₀ ← value c₀
    let v₁ ← value c₁
    if rest = [] ∧ c₃ = pad then
      if c₂ = pad then
        let n := v₀ * 262144 + v₁ * 4096
        return [octet 65536 n]
      else
        let v₂ ← value c₂
        let n := v₀ * 262144 + v₁ * 4096 + v₂ * 64
        return [octet 65536 n, octet 256 n]
    else
      let v₂ ← value c₂
      let v₃ ← value c₃
      let n := v₀ * 262144 + v₁ * 4096 + v₂ * 64 + v₃
      let bytes ← decodeQuads rest
      return octet 65536 n :: octet 256 n :: octet 1 n :: bytes
  | _ => none

def decode (text : List UInt8) : Option (List UInt8) :=
  decodeQuads (text.filter fun c => !isBreak c)

/-! ### What is written is read back -/

section Groups

variable (a b c : UInt8) (unit n : Nat)

@[simp] theorem value_symbol_sextet : value (symbol (sextet unit n)) = some (sextet unit n) :=
  value_symbol _ (Nat.mod_lt _ (by decide))

@[simp] theorem symbol_sextet_ne_pad : symbol (sextet unit n) ≠ pad := by
  intro hp
  have hv := value_symbol_sextet unit n
  rw [hp] at hv
  cases hv

theorem pack_lt : pack a b c < 16777216 := by
  have ha := a.toNat_lt
  have hb := b.toNat_lt
  have hc := c.toNat_lt
  unfold pack
  omega

theorem sextets_pack : sextet 262144 (pack a b c) * 262144 + sextet 4096 (pack a b c) * 4096 +
      sextet 64 (pack a b c) * 64 + sextet 1 (pack a b c) = pack a b c := by
  have hlt := pack_lt a b c
  unfold sextet
  omega

theorem octet_eq {unit n : Nat} {x : UInt8} (h : n / unit % 256 = x.toNat) : octet unit n = x := by
  unfold octet
  rw [h]
  exact UInt8.ofNat_toNat

theorem octets_pack : octet 65536 (pack a b c) = a ∧ octet 256 (pack a b c) = b ∧ octet 1 (pack a b c) = c := by
  have ha := a.toNat_lt
  have hb := b.toNat_lt
  have hc := c.toNat_lt
  refine ⟨octet_eq ?_, octet_eq ?_, octet_eq ?_⟩
  all_goals unfold pack
  all_goals omega

theorem sextets_pack_two : sextet 262144 (pack a b 0) * 262144 + sextet 4096 (pack a b 0) * 4096 +
      sextet 64 (pack a b 0) * 64 = pack a b 0 := by
  have ha := a.toNat_lt
  have hb := b.toNat_lt
  have hz : (0 : UInt8).toNat = 0 := rfl
  unfold sextet pack
  omega

theorem sextets_pack_one : sextet 262144 (pack a 0 0) * 262144 + sextet 4096 (pack a 0 0) * 4096 = pack a 0 0 := by
  have ha := a.toNat_lt
  have hz : (0 : UInt8).toNat = 0 := rfl
  unfold sextet pack
  omega

end Groups

theorem decodeQuads_encode (bytes : List UInt8) : decodeQuads (encode bytes) = some bytes := by
  induction bytes using encode.induct with
  | case1 => rfl
  | case2 a =>
    simp only [encode, decodeQuads, value_symbol_sextet, Option.bind_eq_bind, Option.bind_some,
      and_self, if_true, sextets_pack_one, octets_pack]
    rfl
  | case3 a b =>
    simp only [encode, decodeQuads, value_symbol_sextet, Option.bind_eq_bind, Option.bind_some,
      and_self, if_true, symbol_sextet_ne_pad, if_false, sextets_pack_two, octets_pack]
    rfl
  | case4 a b c rest ih =>
    simp only [encode, decodeQuads, value_symbol_sextet, Option.bind_eq_bind, Option.bind_some,
      symbol_sextet_ne_pad, and_false, if_false, sextets_pack, ih, octets_pack]
    rfl

theorem isSymbol_of_mem_encode (bytes : List UInt8) : ∀ c ∈ encode bytes, isSymbol c := by
  have hs : ∀ unit n, isSymbol (symbol (sextet unit n)) := by
    intro unit n
    rw [isSymbol, value_symbol_sextet]
    rfl
  induction bytes using encode.induct with
  | case1 => simp [encode]
  | case4 a b c rest ih =>
    intro x hx
    simp only [encode, List.mem_cons] at hx
    rcases hx with rfl | rfl | rfl | rfl | hx
    · exact hs _ _
    · exact hs _ _
    · exact hs _ _
    · exact hs _ _
    · exact ih x hx
  | _ => simp [encode, isSymbol]

/-- **What is written is read back.** -/
theorem decode_encode (bytes : List UInt8) : decode (encode bytes) = some bytes := by
  have hf : (encode bytes).filter (fun c => !isBreak c) = encode bytes := by
    rw [List.filter_eq_self]
    intro c hc
    rw [isBreak_of_isSymbol (isSymbol_of_mem_encode bytes c hc)]
    rfl
  rw [decode, hf, decodeQuads_encode]

end Bib.Lib.Base64
