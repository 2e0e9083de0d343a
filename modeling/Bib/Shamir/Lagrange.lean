import Bib.Shamir.Shares

/-!
# Bib.Shamir.Lagrange

**The coefficients `RecoverKey` computes**, as a function of the share indices alone. Only residues modulo 256
matter: wrapping to 64 bits is invisible there, the numerator is the product of the negated indices
(`weight_eq_zero_of_dvd`), and the denominator is looked at only to see whether it vanished (`weight_of_emod`).
-/

namespace Bib.Shamir

open List

/-! ### `gfDiv` in closed form -/

theorem addUntilNonneg_eq (r : Int) : addUntilNonneg r = if r < 0 then r % 256 else r := by
  fun_induction addUntilNonneg r with
  | case1 r hr ih => split <;> omega
  | case2 r hr => rw [if_neg hr]

/-- `gfDiv` is the low byte of its numerator, unless the denominator is zero or a
negative multiple of 256. -/
theorem gfDiv_eq (num denom : Int) : gfDiv num denom =
      if denom = 0 ∨ (denom < 0 ∧ denom % 256 = 0) then 0
      else UInt8.ofNat (num % 256).toNat := by
  have hn : addUntilNonneg num % 256 = num % 256 := by
    rw [addUntilNonneg_eq]
    split <;> omega
  have hd : addUntilNonneg denom = 0 ↔ denom = 0 ∨ (denom < 0 ∧ denom % 256 = 0) := by
    rw [addUntilNonneg_eq]
    split <;> omega
  unfold gfDiv
  simp only [hn, hd]

theorem wrap64_emod (n : Int) : wrap64 n % 256 = n % 256 := by
  have h64 : (256 : Int) ∣ 2 ^ 64 := by decide
  have hw : wrap64 n % 2 ^ 64 = n % 2 ^ 64 := by
    have h := Int.bmod_emod (x := n) (m := 2 ^ 64)
    exact_mod_cast h
  rw [← Int.emod_emod_of_dvd (wrap64 n) h64, hw, Int.emod_emod_of_dvd n h64]

theorem wrap64_mul_emod (m n : Int) : (wrap64 m * n) % 256 = (m * n) % 256 := by
  rw [Int.mul_emod, wrap64_emod, ← Int.mul_emod]

/-! ### The coefficient of one share -/

/-- One round of the inner loop of `RecoverKey`. -/
def productStep (x : Int) (products : Int × Int) (y : Int) : Int × Int :=
  (wrap64 (products.1 * -y), wrap64 (products.2 * wrap64 (x - y)))

def weight (x : Int) (others : List Int) : Byte :=
  let products := others.foldl (productStep x) (1, 1)
  gfDiv products.1 products.2

/-- Skipping position `i` in the loop is looping over the list without it. -/
theorem foldl_zipIdx_skip {α β : Type} (f : β → α → β) (l : List α) (i n : Nat) (b : β) :
    (l.zipIdx n).foldl (fun b p => if i + n = p.2 then b else f b p.1) b =
      (l.eraseIdx i).foldl f b := by
  induction l generalizing i n b with
  | nil => rfl
  | cons a l ih =>
    rw [zipIdx_cons, foldl_cons]
    cases i with
    | zero =>
      rw [if_pos (Nat.zero_add n), eraseIdx_zero]
      -- every remaining position is beyond `n`
      calc (l.zipIdx (n + 1)).foldl (fun b p => if 0 + n = p.2 then b else f b p.1) b
          = (l.zipIdx (n + 1)).foldl (fun b p => f b p.1) b := by
            refine foldl_ext _ _ _ fun b p hp => ?_
            have hle := le_snd_of_mem_zipIdx hp
            rw [if_neg (by omega)]
        _ = l.foldl f b := by
            rw [← foldl_map (f := Prod.fst) (g := f), zipIdx_map_fst]
    | succ i =>
      rw [if_neg (by dsimp only; omega), eraseIdx_cons_succ, foldl_cons, ← ih i (n + 1)]
      congr 1
      funext b p
      rw [Nat.add_right_comm i 1 n, Nat.add_assoc]

theorem lagrangeCoefficient_eq (shares : List Share) (i : Nat) (share : Share) :
    lagrangeCoefficient shares i share =
      weight share.index ((shares.map Share.index).eraseIdx i) := by
  have hs := foldl_zipIdx_skip
    (fun products other => productStep share.index products other.index) shares i 0 (1, 1)
  unfold lagrangeCoefficient weight lagrangeProducts
  rw [eraseIdx_map, foldl_map, ← hs]
  rfl

theorem foldl_productStep_emod (x : Int) (others : List Int) (products : Int × Int) :
    (others.foldl (productStep x) products).1 % 256 =
        (products.1 * (others.map fun y => -y).prod) % 256 ∧
      (others.foldl (productStep x) products).2 % 256 =
        (products.2 * (others.map fun y => x - y).prod) % 256 := by
  induction others generalizing products with
  | nil => simp
  | cons y others ih =>
    obtain ⟨hn, hd⟩ := ih (productStep x products y)
    rw [foldl_cons, hn, hd]
    simp only [productStep, map_cons, prod_cons]
    constructor
    · rw [wrap64_mul_emod, mul_assoc]
    · rw [wrap64_mul_emod, mul_comm products.2, mul_assoc, wrap64_mul_emod, mul_left_comm]

variable {others : List Int}

/-- Indices whose product is a multiple of 256 give the remaining share weight zero. -/
theorem weight_eq_zero_of_dvd {x : Int} (h : (256 : Int) ∣ others.prod) : weight x others = 0 := by
  have hn : (others.foldl (productStep x) (1, 1)).1 % 256 = 0 := by
    rw [(foldl_productStep_emod x others (1, 1)).1, one_mul, prod_map_neg others]
    exact Int.emod_eq_zero_of_dvd (Dvd.dvd.mul_left h _)
  unfold weight
  rw [gfDiv_eq, hn]
  simp

/-- With a denominator that does not vanish modulo 256, the weight is the residue of
the numerator. -/
theorem weight_of_emod {x : Int} (h : (others.map fun y => x - y).prod % 256 ≠ 0) :
    weight x others = UInt8.ofNat ((others.map fun y => -y).prod % 256).toNat := by
  obtain ⟨hn, hd⟩ := foldl_productStep_emod x others (1, 1)
  rw [one_mul] at hn hd
  unfold weight
  rw [gfDiv_eq, hn, if_neg (by rintro (h0 | ⟨-, h0⟩) <;> simp [h0] at hd <;> omega)]

/-! ### The recovered byte -/

def weights (xs : List Int) : List Byte :=
  xs.zipIdx.map fun p => weight p.1 (xs.eraseIdx p.2)

/-- The recovered byte is a function of the indices and of the bytes at that position. -/
theorem recoveredByte_eq (shares : List Share) (k : Nat) : recoveredByte shares k =
      xorAll (zipWith gfMul (shares.map fun share => share.data.getD k 0)
        (weights (shares.map Share.index))) := by
  have hf : (shares.map fun share => share.data.getD k 0) =
      shares.zipIdx.map fun p => p.1.data.getD k 0 := by
    rw [← zipIdx_map_fst 0 shares, map_map, zipIdx_map_fst]
    rfl
  rw [recoveredByte, weights, zipIdx_map, map_map, hf, zipWith_map, zipWith_self]
  congr 1
  refine map_congr_left fun p _ => ?_
  rw [lagrangeCoefficient_eq]
  rfl

end Bib.Shamir
