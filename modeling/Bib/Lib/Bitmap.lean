import Mathlib.Data.List.Basic
import Mathlib.Data.Nat.Bitwise

/-!
# Bib.Lib.Bitmap

**Byte lists as sets of numbers.** Number `i` is bit `i % 8` of byte `i / 8`. `set` grows the list as far as it
has to. `count_eq_countP` ties the walk over the bytes to the numbers themselves: a bitmap that holds the first
`n` numbers counts at least `n`, and one that holds nothing else and counts `n` holds all of them.
-/

namespace Bib.Lib.Bitmap

open List

/-- The byte with bit `k` set. -/
def mask (k : Nat) : UInt8 := 1 <<< UInt8.ofNat k

def test (bitmap : List UInt8) (i : Nat) : Bool :=
  match bitmap[i / 8]? with
  | none => false
  | some byte => byte &&& mask (i % 8) != 0

/-- Zero bytes at the end, up to the given length. -/
def grow (bitmap : List UInt8) (length : Nat) : List UInt8 :=
  bitmap ++ List.replicate (length - bitmap.length) 0

def set (bitmap : List UInt8) (i : Nat) : List UInt8 :=
  (grow bitmap (i / 8 + 1)).modify (i / 8) (· ||| mask (i % 8))

def count (bitmap : List UInt8) : Nat :=
  bitmap.foldl (fun count byte =>
    (List.range 8).foldl (fun count k => if byte &&& mask k != 0 then count + 1 else count) count) 0

/-! ### Bits of a byte -/

theorem toNat_mask {k : Nat} (hk : k < 8) : (mask k).toNat = 2 ^ k := by
  have hall : ∀ k : Fin 8, (mask k.val).toNat = 2 ^ k.val := by decide
  exact hall ⟨k, hk⟩

theorem and_mask (byte : UInt8) {k : Nat} (hk : k < 8) : (byte &&& mask k != 0) = byte.toNat.testBit k := by
  have hz : byte &&& mask k = 0 ↔ byte.toNat &&& 2 ^ k = 0 := by
    rw [← UInt8.toNat_inj, UInt8.toNat_and, toNat_mask hk]
    rfl
  rw [Nat.and_two_pow] at hz
  cases hb : byte.toNat.testBit k <;> simp [hz, hb]

/-! ### Membership -/

theorem test_eq (bitmap : List UInt8) (i : Nat) : test bitmap i = (bitmap[i / 8]?.getD 0).toNat.testBit (i % 8) := by
  unfold test
  cases bitmap[i / 8]? with
  | none => simp
  | some byte => exact and_mask byte (Nat.mod_lt i (by decide))

theorem getD_grow (bitmap : List UInt8) (length i : Nat) : (grow bitmap length)[i]?.getD 0 = bitmap[i]?.getD 0 := by
  unfold grow
  by_cases hi : i < bitmap.length
  · rw [getElem?_append_left hi]
  · rw [getElem?_append_right (Nat.le_of_not_lt hi), getElem?_replicate,
      getElem?_eq_none (Nat.le_of_not_lt hi)]
    split <;> rfl

theorem test_set (bitmap : List UInt8) (i j : Nat) : test (set bitmap i) j = (test bitmap j || decide (i = j)) := by
  have hm : i % 8 < 8 := Nat.mod_lt i (by decide)
  rw [test_eq, test_eq, ← getD_grow bitmap (i / 8 + 1) (j / 8)]
  unfold set
  rw [getElem?_modify]
  by_cases hd : i / 8 = j / 8
  · have hlt : j / 8 < (grow bitmap (i / 8 + 1)).length := by
      simp only [grow, length_append, length_replicate]
      omega
    rw [getElem?_eq_getElem hlt]
    have hi : i % 8 = j % 8 ↔ i = j := by omega
    simp [hd, toNat_mask hm, Nat.testBit_two_pow, hi]
  · have hne : i ≠ j := fun heq => hd (heq ▸ rfl)
    simp [hd, hne]

theorem test_replicate_zero (n i : Nat) : test (replicate n 0) i = false := by
  rw [test_eq, getElem?_replicate]
  split <;> simp

/-! ### Counting -/

theorem foldl_count {α : Type} (p : α → Bool) (xs : List α) (start : Nat) :
    xs.foldl (fun count x => if p x then count + 1 else count) start = start + xs.countP p := by
  induction xs generalizing start with
  | nil => rfl
  | cons x xs ih =>
    rw [foldl_cons, ih, countP_cons]
    split <;> omega

theorem count_eq_countP (bitmap : List UInt8) : count bitmap = (range (8 * bitmap.length)).countP (test bitmap) := by
  have hfo : ∀ (bytes : List UInt8) (start : Nat), bytes.foldl (fun count byte =>
      (range 8).foldl (fun count k => if byte &&& mask k != 0 then count + 1 else count) count)
      start = start + (range (8 * bytes.length)).countP (test bytes) := by
    intro bytes
    induction bytes with
    | nil => intro start; rfl
    | cons byte bytes ih =>
      intro start
      have hlen : 8 * (byte :: bytes).length = 8 + 8 * bytes.length := by
        rw [length_cons]
        omega
      -- the first eight numbers belong to the first byte, the others shift by eight
      have hf : (range 8).countP (fun k => byte &&& mask k != 0) =
          (range 8).countP (test (byte :: bytes)) := by
        refine countP_congr (fun k hk => ?_)
        have hk8 : k < 8 := mem_range.mp hk
        simp [test, Nat.div_eq_of_lt hk8, Nat.mod_eq_of_lt hk8]
      have hrest : test (byte :: bytes) ∘ (8 + ·) = test bytes := by
        funext k
        have hd : (8 + k) / 8 = k / 8 + 1 := by omega
        have hm : (8 + k) % 8 = k % 8 := by omega
        simp [test, hd, hm]
      rw [foldl_cons, ih, foldl_count (fun k => byte &&& mask k != 0), hlen, range_add,
        countP_append, countP_map, hrest]
      omega
  rw [count, hfo, Nat.zero_add]

variable {bitmap : List UInt8} {n : Nat}

theorem lt_of_test {i : Nat} (h : test bitmap i = true) : i < 8 * bitmap.length := by
  by_contra hle
  have hnone : bitmap[i / 8]? = none := getElem?_eq_none (by omega)
  simp [test, hnone] at h

theorem count_eq_of_bound (h : ∀ i, test bitmap i = true → i < n) :
    count bitmap = (range n).countP (test bitmap) := by
  have hc : ∀ m k, (∀ i, test bitmap i = true → i < m) →
      (range (m + k)).countP (test bitmap) = (range m).countP (test bitmap) := by
    intro m k hm
    have hz : ((range k).map (m + ·)).countP (test bitmap) = 0 := by
      rw [countP_eq_zero]
      intro i hi ht
      obtain ⟨j, -, rfl⟩ := mem_map.mp hi
      have hlt := hm _ ht
      omega
    rw [range_add, countP_append, hz, Nat.add_zero]
  rw [count_eq_countP]
  rcases Nat.le_total n (8 * bitmap.length) with hle | hle
  · rw [← Nat.add_sub_of_le hle]
    exact hc n _ h
  · rw [← Nat.add_sub_of_le hle]
    exact (hc _ _ fun i ht => lt_of_test ht).symm

theorem count_le_of_bound (h : ∀ i, test bitmap i = true → i < n) : count bitmap ≤ n := by
  rw [count_eq_of_bound h]
  calc (range n).countP (test bitmap) ≤ (range n).length := countP_le_length
    _ = n := length_range

/-- A set within the first `n` numbers that counts `n` is all of them. -/
theorem le_count_iff (h : ∀ i, test bitmap i = true → i < n) : n ≤ count bitmap ↔ ∀ i < n, test bitmap i = true := by
  have hall := countP_eq_length (p := test bitmap) (l := range n)
  rw [length_range, ← count_eq_of_bound h] at hall
  constructor
  · intro hle i hi
    exact hall.mp (Nat.le_antisymm (count_le_of_bound h) hle) i (mem_range.mpr hi)
  · intro ht
    exact Nat.le_of_eq (hall.mpr fun i hi => ht i (mem_range.mp hi)).symm

end Bib.Lib.Bitmap
