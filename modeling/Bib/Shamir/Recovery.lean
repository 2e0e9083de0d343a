import Bib.Shamir.Lagrange

/-!
# Bib.Shamir.Recovery

**When does `RecoverKey` give the key back?** For the empty key, and for an all-zero key under a configuration
so close to `TotalShares = Threshold` that every weight is zero (`recovers_iff`). The failures need three
families of shares:

* thresholds up to 13: the shares `1, …, t`, with the second coefficient `0` or `1`, by evaluation;
* a non-zero key byte and a threshold from 14 on: the product of any `t - 1` of `1, …, t` is a multiple of 256;
* a zero key byte and a threshold from 14 on, outside `degenerate`: shares chosen so that exactly one weight
  (or, for `t = 14`, two) survives.
-/

namespace Bib.Shamir

open List
open UInt8 (ofNat toNat toNat_inj toNat_xor xor_zero)

/-- `RecoverKey` returns `key` from any `Threshold` pairwise distinct shares of it, in
any order, whatever coefficients were drawn. -/
def Recovers (config : ShamirConfig) (key : List Byte) : Prop :=
  ∀ (now : Time) (coeffs : Nat → Fin key.length → Byte) (shares chosen : List Share),
    splitKey config now key (fun i => some (coeffs i)) = .ok shares →
    chosen.Nodup → (∀ share ∈ chosen, share ∈ shares) →
    (chosen.length : Int) = config.threshold →
    recoverKey config chosen = .ok key

/-! ### Powers of two in products of distinct indices -/

/-- Even factors and multiples of four each add a factor of two. -/
theorem two_pow_countP_dvd_prod (l : List Nat) :
    2 ^ (l.countP (fun x => x % 2 = 0) + l.countP (fun x => x % 4 = 0)) ∣ l.prod := by
  induction l with
  | nil => simp
  | cons x l ih =>
    have hx : 2 ^ ((if decide (x % 2 = 0) then 1 else 0) + if decide (x % 4 = 0) then 1 else 0) ∣ x := by
      simp only [decide_eq_true_eq]
      split_ifs <;> omega
    rw [countP_cons, countP_cons, prod_cons, Nat.add_add_add_comm, pow_add, mul_comm x]
    exact mul_dvd_mul ih hx

theorem countP_range' (m n : Nat) : (range' 1 n).countP (fun x => ¬ x % m = 0) = n - n / m := by
  induction n with
  | zero => simp
  | succ n ih =>
    have hd : n / m ≤ n := Nat.div_le_self n m
    rw [range'_1_concat, countP_append, ih, countP_singleton, Nat.add_comm 1 n, Nat.succ_div]
    by_cases hdv : m ∣ n + 1
    · have h0 : (n + 1) % m = 0 := Nat.mod_eq_zero_of_dvd hdv
      simp [h0, hdv]
    · have h0 : ¬ (n + 1) % m = 0 := fun h => hdv (Nat.dvd_of_mod_eq_zero h)
      simp only [h0, not_false_eq_true, decide_true, if_true, hdv, if_false]
      omega

/-- Distinct indices cannot avoid the multiples of `m` once there are too many of them. -/
theorem le_countP_of_nodup (m n : Nat) {l : List Nat} (hnd : l.Nodup)
    (hmem : ∀ x ∈ l, 1 ≤ x ∧ x ≤ n) : l.length - (n - n / m) ≤ l.countP (fun x => x % m = 0) := by
  have hsu : l.Subperm (range' 1 n) := by
    refine hnd.subperm fun x hx => ?_
    have := hmem x hx
    rw [mem_range'_1]
    omega
  have hle : l.countP (fun x => ¬ x % m = 0) ≤ n - n / m := by
    rw [← countP_range' m n]
    exact hsu.countP_le _
  have hs := length_eq_countP_add_countP (fun x => decide (x % m = 0)) (l := l)
  simp only [decide_eq_true_eq] at hs
  omega

/-- The shares leave no choice: any `t - 1` of the indices `1, …, n` have a product
divisible by 256. -/
def degenerate (t n : Nat) : Prop :=
  8 ≤ (t - 1 - (n + 1) / 2) + (t - 1 - (n - n / 4))

instance (t n : Nat) : Decidable (degenerate t n) := inferInstanceAs (Decidable (_ ≤ _))

variable {t n : Nat} {xs : List Nat} {config : ShamirConfig}

theorem dvd_prod_of_degenerate (hd : degenerate t n) {l : List Nat}
    (hnd : l.Nodup) (hmem : ∀ x ∈ l, 1 ≤ x ∧ x ≤ n) (hlen : l.length = t - 1) : 256 ∣ l.prod := by
  have h2 := le_countP_of_nodup 2 n hnd hmem
  have h4 := le_countP_of_nodup 4 n hnd hmem
  unfold degenerate at hd
  have hp : 2 ^ 8 ∣ 2 ^ (l.countP (fun x => x % 2 = 0) + l.countP (fun x => x % 4 = 0)) :=
    pow_dvd_pow 2 (by omega)
  exact hp.trans (two_pow_countP_dvd_prod l)

/-! ### Weights of share indices -/

/-- The weights of shares with the (positive) indices `xs`. -/
def indexWeights (xs : List Nat) : List Byte :=
  weights (xs.map fun (x : Nat) => (x : Int))

theorem mem_indexWeights {w : Byte} (hw : w ∈ indexWeights xs) :
    ∃ (i : Nat) (x : Nat), xs[i]? = some x ∧
      w = weight (x : Int) ((xs.eraseIdx i).map fun (x : Nat) => (x : Int)) := by
  obtain ⟨⟨y, i⟩, hp, rfl⟩ := mem_map.mp hw
  rw [mem_zipIdx_iff_getElem?, getElem?_map, Option.map_eq_some_iff] at hp
  obtain ⟨x, hx, rfl⟩ := hp
  exact ⟨i, x, hx, by rw [eraseIdx_map]⟩

theorem indexWeights_of_degenerate (hd : degenerate t n) {xs : List Nat}
    (hnd : xs.Nodup) (hmem : ∀ x ∈ xs, 1 ≤ x ∧ x ≤ n) (hlen : xs.length = t) :
    ∀ w ∈ indexWeights xs, w = 0 := by
  intro w hw
  obtain ⟨i, x, hx, rfl⟩ := mem_indexWeights hw
  have hi : i < xs.length := (List.getElem?_eq_some_iff.mp hx).1
  refine weight_eq_zero_of_dvd ?_
  rw [← Nat.cast_list_prod]
  have hdv : 256 ∣ (xs.eraseIdx i).prod := by
    refine dvd_prod_of_degenerate hd (hnd.sublist (eraseIdx_sublist xs i)) ?_ ?_
    · intro y hy
      exact hmem y (mem_of_mem_eraseIdx hy)
    · rw [length_eraseIdx_of_lt hi, hlen]
  exact_mod_cast hdv

/-! ### From a list of indices to a lost key -/

/-- The byte recovered from the shares with indices `xs` and weights `ws` when the key
byte is `s`, the second coefficient is `a` and all further coefficients are zero. -/
def outcome (ws : List Byte) (xs : List Nat) (a s : Byte) : Byte :=
  xorAll (List.zipWith gfMul (xs.map fun x => gfMul a (ofNat x) ^^^ s) ws)

def linearCoeffs {n : Nat} (a : Byte) (i : Nat) : Fin n → Byte :=
  fun _ => if i = 1 then a else 0

theorem shareAt_linearCoeffs (h : Accepted config) (now : Time)
    (key : List Byte) (a : Byte) {k : Nat} (hk : k < key.length) {x : Nat} (hx : 1 ≤ x) :
    (shareAt config now key (linearCoeffs a) (x - 1)).data.getD k 0 =
      gfMul a (ofNat x) ^^^ key.getD k 0 := by
  obtain ⟨m, hm⟩ : ∃ m, (config.threshold - 1).toNat = m + 1 :=
    ⟨(config.threshold - 2).toNat, by have := h.1; omega⟩
  have hrest : ((range' 2 m).map fun i => (linearCoeffs a i : Fin key.length → Byte)
      ⟨k, hk⟩) = replicate m 0 := by
    rw [eq_replicate_iff]
    refine ⟨by simp, fun b hb => ?_⟩
    obtain ⟨i, hi, rfl⟩ := mem_map.mp hb
    have hi2 : 2 ≤ i := (mem_range'_1.mp hi).1
    exact if_neg (by omega)
  have hd : ((drawn (n := key.length) config.threshold (linearCoeffs a)).map
      fun c : List Byte => c.getD k 0) = a :: replicate m 0 := by
    rw [drawn, hm, range'_succ, ← hrest]
    simp [getD_eq_getElem?_getD, hk, linearCoeffs]
  have hx' : ((x - 1 : Nat) : Int) + 1 = (x : Int) := by omega
  rw [shareAt, evaluatePolynomial_getD _ _ _ hk, hd, hx', ofInt_natCast]
  simp [horner_replicate_zero]

/-- A selection of indices whose outcome differs from a byte of the key refutes recovery. -/
theorem not_recovers_of_outcome (h : Accepted config) {key : List Byte}
    {k : Nat} (hk : k < key.length) {xs : List Nat} {a : Byte} (hnd : xs.Nodup)
    (hmem : ∀ x ∈ xs, 1 ≤ x ∧ x ≤ config.totalShares.toNat)
    (hlen : xs.length = config.threshold.toNat)
    (ho : outcome (indexWeights xs) xs a (key.getD k 0) ≠ key.getD k 0) :
    ¬ Recovers config key := by
  intro hr
  let share := fun x => shareAt config 0 key (linearCoeffs a) (x - 1)
  have hindex : ∀ x ∈ xs, (share x).index = (x : Int) := by
    intro x hx
    have := hmem x hx
    show ((x - 1 : Nat) : Int) + 1 = x
    omega
  have hi : ∀ x ∈ xs, ∀ y ∈ xs, share x = share y → x = y := by
    intro x hx y hy hxy
    have h1 := hindex x hx
    rw [hxy, hindex y hy] at h1
    omega
  have hsl : ∀ s ∈ xs.map share, s ∈ (range config.totalShares.toNat).map
      (shareAt config 0 key (linearCoeffs a)) := by
    intro s hs
    obtain ⟨x, hx, rfl⟩ := mem_map.mp hs
    have := hmem x hx
    exact mem_map.mpr ⟨x - 1, mem_range.mpr (by omega), rfl⟩
  have ht := h.1
  have hl' : ((xs.map share).length : Int) = config.threshold := by
    rw [length_map]; omega
  have hok := hr 0 (linearCoeffs a) _ (xs.map share) (splitKey_eq_ok.mpr ⟨h, rfl⟩)
    (hnd.map_on hi) hsl hl'
  obtain ⟨secret, hse, -, hb⟩ := recoverKey_eq_ok key.length (by omega) hl' (by
    intro s hs
    obtain ⟨x, -, rfl⟩ := mem_map.mp hs
    simp [share, shareAt])
  rw [hok] at hse
  cases hse
  refine ho ((hb k hk).trans ?_).symm
  have hxs : (xs.map share).map Share.index = xs.map fun (x : Nat) => (x : Int) := by
    rw [map_map]
    exact map_congr_left hindex
  have hdata : ((xs.map share).map fun s => s.data.getD k 0) =
      xs.map fun x => gfMul a (ofNat x) ^^^ key.getD k 0 := by
    rw [map_map]
    exact map_congr_left fun x hx => shareAt_linearCoeffs h 0 key a hk (hmem x hx).1
  rw [recoveredByte_eq, hxs, hdata]
  rfl

/-! ### Evaluating outcomes

Table lookups on packed numbers, so that a few hundred thousand products stay cheap. -/

/-- Byte logarithms, six bits each. -/
def packedLogs : Nat :=
  powers.zipIdx.foldr (fun p acc => p.2 * 64 ^ p.1.toNat + acc) 0

/-- The 51 powers, eight bits each. -/
def packedPowers : Nat :=
  powers.foldr (fun v acc => acc * 256 + v.toNat) 0

/-- `gfMul` on numbers below 256. -/
def natMul (a b : Nat) : Nat :=
  bif a * b == 0 then 0
  else packedPowers >>> (8 * (((packedLogs >>> (6 * a)) % 64 + (packedLogs >>> (6 * b)) % 64) % 51))
    % 256

theorem packedLogs_eq : ∀ v < 256, (packedLogs >>> (6 * v)) % 64 = cycleLog (ofNat v) := by
  decide +kernel

theorem packedPowers_eq : ∀ j < 51, packedPowers >>> (8 * j) % 256 = (power j).toNat := by
  decide +kernel

theorem natMul_eq (a b : Byte) : natMul a.toNat b.toNat = (gfMul a b).toNat := by
  unfold natMul
  by_cases ha : a = 0
  · simp [ha]
  by_cases hb : b = 0
  · simp [hb]
  have ha0 : a.toNat ≠ 0 := fun h => ha (toNat_inj.mp h)
  have hb0 : b.toNat ≠ 0 := fun h => hb (toNat_inj.mp h)
  have hab : (a.toNat * b.toNat == 0) = false := by
    rw [beq_eq_false_iff_ne]
    exact Nat.mul_ne_zero ha0 hb0
  have hp : ∀ j, power (j % 51) = power j := fun j => by rw [power, power, Nat.mod_mod]
  rw [hab, cond_false, packedLogs_eq _ a.toNat_lt, packedLogs_eq _ b.toNat_lt, UInt8.ofNat_toNat,
    UInt8.ofNat_toNat, packedPowers_eq _ (Nat.mod_lt _ (by omega)), hp, gfMul_eq_power ha hb]

/-- `outcome` on numbers below 256. -/
def natOutcome : List Nat → List Nat → Nat → Nat → Nat
  | w :: ws, x :: xs, a, s => natMul (natMul a x ^^^ s) w ^^^ natOutcome ws xs a s
  | _, _, _, _ => 0

theorem natOutcome_eq (ws : List Byte) (xs : List Nat) (a s : Byte) (hxs : ∀ x ∈ xs, x < 256) :
    natOutcome (ws.map toNat) xs a.toNat s.toNat = (outcome ws xs a s).toNat := by
  induction ws generalizing xs with
  | nil => cases xs <;> rfl
  | cons w ws ih =>
    cases xs with
    | nil => rfl
    | cons x xs =>
      have hx : x = (ofNat x).toNat := by
        rw [UInt8.toNat_ofNat', Nat.mod_eq_of_lt (hxs x (by simp))]
      have hrest := ih xs fun y hy => hxs y (by simp [hy])
      rw [map_cons, natOutcome, hrest]
      change _ = (gfMul (gfMul a (ofNat x) ^^^ s) w ^^^ outcome ws xs a s).toNat
      rw [toNat_xor, ← natMul_eq, toNat_xor, ← natMul_eq, ← hx]

/-- A weight, with `gfDiv` in closed form. -/
def weightEval (x : Nat) (others : List Nat) : Nat :=
  let products := others.foldl (fun products (y : Nat) => productStep x products y) (1, 1)
  if products.2 = 0 ∨ (products.2 < 0 ∧ products.2 % 256 = 0) then 0
  else (products.1 % 256).toNat

theorem weightEval_eq (x : Nat) (others : List Nat) :
    weightEval x others = (weight x (others.map fun (y : Nat) => (y : Int))).toNat := by
  unfold weightEval weight
  dsimp only
  rw [gfDiv_eq, foldl_map]
  split
  · rfl
  · rw [UInt8.toNat_ofNat', Nat.mod_eq_of_lt (by omega)]

def weightsEval (xs : List Nat) : List Nat :=
  xs.zipIdx.map fun p => weightEval p.1 (xs.eraseIdx p.2)

theorem weightsEval_eq (xs : List Nat) : weightsEval xs = (indexWeights xs).map toNat := by
  unfold weightsEval indexWeights weights
  rw [zipIdx_map, map_map, map_map]
  refine map_congr_left fun p _ => ?_
  rw [weightEval_eq]
  simp [eraseIdx_map]

theorem outcome_ne_of_natOutcome (hxs : ∀ x ∈ xs, x < 256) {a s : Byte}
    (h : natOutcome (weightsEval xs) xs a.toNat s.toNat ≠ s.toNat) : outcome (indexWeights xs) xs a s ≠ s := by
  intro heq
  rw [weightsEval_eq, natOutcome_eq _ _ _ _ hxs, heq] at h
  exact h rfl

/-! ### Selections that fail -/

theorem natOutcome_small : ∀ t ∈ range' 2 12, ∀ s < 256,
    natOutcome (weightsEval (range' 1 t)) (range' 1 t) 0 s ≠ s ∨
      natOutcome (weightsEval (range' 1 t)) (range' 1 t) 1 s ≠ s := by decide +kernel

/-- Up to threshold 13 the shares `1, …, t` lose every key byte. -/
theorem outcome_small (h2 : 2 ≤ t) (h13 : t ≤ 13) (s : Byte) :
    ∃ a, outcome (indexWeights (range' 1 t)) (range' 1 t) a s ≠ s := by
  have hlt : ∀ x ∈ range' 1 t, x < 256 := by
    intro x hx
    have := mem_range'_1.mp hx
    omega
  rcases natOutcome_small t (mem_range'_1.mpr ⟨h2, by omega⟩) s.toNat s.toNat_lt with h | h
  · exact ⟨0, outcome_ne_of_natOutcome hlt h⟩
  · exact ⟨1, outcome_ne_of_natOutcome hlt h⟩

theorem xorAll_zipWith_of_zero {ws : List Byte} (h : ∀ w ∈ ws, w = 0) (bytes : List Byte) :
    xorAll (zipWith gfMul bytes ws) = 0 := by
  refine xorAll_eq_zero fun b hb => ?_
  obtain ⟨i, hi, rfl⟩ := mem_iff_getElem.mp hb
  rw [getElem_zipWith, h _ (getElem_mem _), gfMul_zero_right]

theorem nodup_range'_mem (t : Nat) :
    (range' 1 t).Nodup ∧ (∀ x ∈ range' 1 t, 1 ≤ x ∧ x ≤ t) ∧
      (range' 1 t).length = t := by
  refine ⟨nodup_range', fun x hx => ?_, length_range'⟩
  have := mem_range'_1.mp hx
  omega

/-- From threshold 14 on the shares `1, …, t` recover zeros. -/
theorem outcome_large (h14 : 14 ≤ t) (a s : Byte) : outcome (indexWeights (range' 1 t)) (range' 1 t) a s = 0 := by
  obtain ⟨hnd, hmem, hlen⟩ := nodup_range'_mem t
  have hd : degenerate t t := by unfold degenerate; omega
  exact xorAll_zipWith_of_zero (indexWeights_of_degenerate hd hnd hmem hlen) _

/-- For the thresholds from 14 to 20, shares that do not recover a zero byte, with the
largest index among them. -/
def selections : List (Nat × Nat × List Nat) :=
  [(14, 15, [8, 1, 3, 5, 7, 9, 11, 13, 15, 2, 6, 10, 14, 4]),
   (15, 17, [16, 1, 3, 5, 7, 9, 11, 13, 15, 17, 2, 6, 10, 14, 4]),
   (16, 18, [16, 1, 3, 5, 7, 9, 11, 13, 15, 17, 2, 6, 10, 14, 18, 4]),
   (17, 19, [16, 1, 3, 5, 7, 9, 11, 13, 15, 17, 19, 2, 6, 10, 14, 18, 4]),
   (18, 21, [16, 1, 3, 5, 7, 9, 11, 13, 15, 17, 19, 21, 2, 6, 10, 14, 18, 4]),
   (19, 23, [16, 1, 3, 5, 7, 9, 11, 13, 15, 17, 19, 21, 23, 2, 6, 10, 14, 18, 22]),
   (20, 25, [16, 1, 3, 5, 7, 9, 11, 13, 15, 17, 19, 21, 23, 25, 2, 6, 10, 14, 18, 22])]

theorem selections_spec : ∀ p ∈ selections, p.2.2.Nodup ∧ p.2.2.length = p.1 ∧
    (∀ x ∈ p.2.2, 1 ≤ x ∧ x ≤ p.2.1 ∧ x < 256) ∧
    natOutcome (weightsEval p.2.2) p.2.2 1 0 ≠ 0 := by decide +kernel

theorem exists_mem_selections (h14 : 14 ≤ t) (h20 : t ≤ 20) (htn : t ≤ n)
    (hd : ¬ degenerate t n) : ∃ p ∈ selections, p.1 = t ∧ p.2.1 ≤ n := by
  have hn : n ≤ 25 ∨ 25 < n := by omega
  have hs : ∀ t ∈ range' 14 7, ∀ n ∈ range' t (26 - t), degenerate t n ∨
      ∃ p ∈ selections, p.1 = t ∧ p.2.1 ≤ n := by decide +kernel
  have hl : ∀ t ∈ range' 14 7, ∃ p ∈ selections, p.1 = t ∧ p.2.1 ≤ 25 := by decide
  have ht : t ∈ range' 14 7 := mem_range'_1.mpr ⟨h14, by omega⟩
  rcases hn with hn | hn
  · exact (hs t ht n (mem_range'_1.mpr ⟨htn, by omega⟩)).resolve_left hd
  · obtain ⟨p, hp, hpt, hpn⟩ := hl t ht
    exact ⟨p, hp, hpt, by omega⟩

def odds (m : Nat) : List Nat := (List.range m).map fun i => 2 * i + 1

/-- From threshold 21 on: `8`, seven numbers that are twice an odd one, and odd numbers. -/
def wideSelection (t : Nat) : List Nat := 8 :: ([2, 6, 10, 14, 18, 22, 26] ++ odds (t - 8))

theorem wideSelection_nodup (t : Nat) : (wideSelection t).Nodup := by
  have hod : (odds (t - 8)).Nodup := nodup_range.map fun i j h => by omega
  have ho : ∀ x ∈ odds (t - 8), x % 2 = 1 := by
    intro x hx
    obtain ⟨i, -, rfl⟩ := mem_map.mp hx
    omega
  have hd : ∀ x ∈ [8, 2, 6, 10, 14, 18, 22, 26], x ∉ odds (t - 8) := by
    intro x hx hmem
    have hx0 : x % 2 = 0 := by
      have : ∀ x ∈ [8, 2, 6, 10, 14, 18, 22, 26], x % 2 = 0 := by decide
      exact this x hx
    have := ho x hmem
    omega
  have ha : wideSelection t = [8, 2, 6, 10, 14, 18, 22, 26] ++ odds (t - 8) := rfl
  rw [ha, nodup_append]
  refine ⟨by decide, hod, fun x hx y hy hxy => hd x hx (hxy ▸ hy)⟩

theorem wideSelection_mem (h26 : 26 ≤ n) (ht : t - 8 ≤ (n + 1) / 2) : ∀ x ∈ wideSelection t, 1 ≤ x ∧ x ≤ n := by
  intro x hx
  have ha : wideSelection t = [8, 2, 6, 10, 14, 18, 22, 26] ++ odds (t - 8) := rfl
  rw [ha, mem_append] at hx
  rcases hx with hx | hx
  · have : ∀ x ∈ [8, 2, 6, 10, 14, 18, 22, 26], 1 ≤ x ∧ x ≤ 26 := by decide
    have := this x hx
    omega
  · obtain ⟨i, hi, rfl⟩ := mem_map.mp hx
    have := mem_range.mp hi
    omega

theorem countP_le_eraseIdx {α : Type} (p : α → Bool) (l : List α) (i : Nat) :
    l.countP p ≤ (l.eraseIdx i).countP p + 1 := by
  induction l generalizing i with
  | nil => simp
  | cons a l ih =>
    cases i with
    | zero =>
      rw [eraseIdx_zero, tail_cons, countP_cons]
      split <;> omega
    | succ i =>
      rw [eraseIdx_cons_succ, countP_cons, countP_cons]
      have := ih i
      omega

theorem prod_odd {l : List Int} (h : ∀ y ∈ l, y % 2 = 1) : l.prod % 2 = 1 := by
  induction l with
  | nil => rfl
  | cons y l ih =>
    rw [prod_cons, Int.mul_emod, h y (by simp), ih fun z hz => h z (by simp [hz])]
    rfl

theorem odds_prod_odd (m : Nat) (f : Int → Int) (hf : ∀ y, y % 2 = 1 → f y % 2 = 1) :
    (((odds m).map fun (y : Nat) => (y : Int)).map f).prod % 2 = 1 := by
  refine prod_odd fun z hz => ?_
  obtain ⟨y, hy, rfl⟩ := mem_map.mp hz
  obtain ⟨x, hx, rfl⟩ := mem_map.mp hy
  obtain ⟨i, -, rfl⟩ := mem_map.mp hx
  exact hf _ (by omega)

/-- The share `8` keeps the weight 128: numerator and denominator have exactly seven
factors of two. -/
theorem weight_eight (t : Nat) : weight 8 (((wideSelection t).eraseIdx 0).map fun (y : Nat) => (y : Int)) = 128 := by
  have hs : ((wideSelection t).eraseIdx 0).map (fun (y : Nat) => (y : Int)) =
      [2, 6, 10, 14, 18, 22, 26] ++ (odds (t - 8)).map fun (y : Nat) => (y : Int) := by
    simp [wideSelection]
  have hd := odds_prod_odd (t - 8) (fun y => 8 - y) (by intro y hy; omega)
  have hn := odds_prod_odd (t - 8) (fun y => -y) (by intro y hy; omega)
  rw [hs, weight_of_emod]
  · rw [map_append, prod_append]
    generalize (map (fun y : Int => -y) _).prod = o at hn ⊢
    have hv : ((([2, 6, 10, 14, 18, 22, 26] : List Int).map fun y => -y).prod * o) % 256 = 128 := by
      have hp : (([2, 6, 10, 14, 18, 22, 26] : List Int).map fun y => -y).prod = -17297280 := by
        decide
      rw [hp]
      omega
    rw [hv]
    rfl
  · rw [map_append, prod_append]
    have hp : (([2, 6, 10, 14, 18, 22, 26] : List Int).map fun y => 8 - y).prod = -362880 := by
      decide
    rw [hp]
    omega

/-- Every other share of the selection has weight zero. -/
theorem weight_wideSelection_succ (x : Int) (i : Nat) :
    weight x (((wideSelection t).eraseIdx (i + 1)).map fun (y : Nat) => (y : Int)) = 0 := by
  let tail := [2, 6, 10, 14, 18, 22, 26] ++ odds (t - 8)
  have he : (wideSelection t).eraseIdx (i + 1) = 8 :: tail.eraseIdx i := rfl
  have hev : 7 ≤ tail.countP (fun x => x % 2 = 0) := by
    rw [countP_append]
    exact Nat.le_add_right 7 _
  have hle := countP_le_eraseIdx (fun x => decide (x % 2 = 0)) tail i
  refine weight_eq_zero_of_dvd ?_
  rw [← Nat.cast_list_prod]
  have hp := two_pow_countP_dvd_prod (8 :: tail.eraseIdx i)
  have h2 : (8 :: tail.eraseIdx i).countP (fun x => x % 2 = 0) =
      (tail.eraseIdx i).countP (fun x => x % 2 = 0) + 1 := countP_cons_of_pos (by decide)
  have h4 : (8 :: tail.eraseIdx i).countP (fun x => x % 4 = 0) =
      (tail.eraseIdx i).countP (fun x => x % 4 = 0) + 1 := countP_cons_of_pos (by decide)
  have hd : 2 ^ 8 ∣ (8 :: tail.eraseIdx i).prod := (pow_dvd_pow 2 (by rw [h4]; omega)).trans hp
  exact_mod_cast hd

theorem outcome_wideSelection (t : Nat) : outcome (indexWeights (wideSelection t)) (wideSelection t) 1 0 ≠ 0 := by
  have hc : indexWeights (wideSelection t) = 128 :: (indexWeights (wideSelection t)).tail := by
    have hh : (indexWeights (wideSelection t)).head? = some 128 := by
      rw [← weight_eight t]
      rfl
    exact eq_cons_of_mem_head? hh
  have hz : ∀ w ∈ (indexWeights (wideSelection t)).tail, w = 0 := by
    intro w hw
    obtain ⟨i, hi, rfl⟩ := mem_iff_getElem.mp hw
    rw [getElem_tail]
    simp only [indexWeights, weights, getElem_map, getElem_zipIdx, eraseIdx_map]
    rw [Nat.zero_add, weight_wideSelection_succ]
  have hf : gfMul (gfMul 1 (ofNat 8) ^^^ 0) 128 ≠ 0 := by
    rw [xor_zero, Ne, gfMul_eq_zero_iff, gfMul_eq_zero_iff]
    decide
  rw [hc]
  change gfMul (gfMul 1 (ofNat 8) ^^^ 0) 128 ^^^ xorAll (zipWith gfMul _ _) ≠ 0
  rw [xorAll_zipWith_of_zero hz, xor_zero]
  exact hf

/-! ### Exactly when recovery works -/

/-- A key byte that is not zero, or any byte outside the degenerate configurations, is
lost by some selection and some second coefficient. -/
theorem exists_outcome_ne (h2 : 2 ≤ t) (htn : t ≤ n) {s : Byte} (h : s ≠ 0 ∨ ¬ degenerate t n) :
    ∃ xs : List Nat, ∃ a : Byte, xs.Nodup ∧ (∀ x ∈ xs, 1 ≤ x ∧ x ≤ n) ∧ xs.length = t ∧
      outcome (indexWeights xs) xs a s ≠ s := by
  have hf : (range' 1 t).Nodup ∧ (∀ x ∈ range' 1 t, 1 ≤ x ∧ x ≤ n) ∧
      (range' 1 t).length = t := by
    obtain ⟨hnd, hmem, hlen⟩ := nodup_range'_mem t
    exact ⟨hnd, fun x hx => ⟨(hmem x hx).1, (hmem x hx).2.trans htn⟩, hlen⟩
  by_cases h13 : t ≤ 13
  · obtain ⟨a, ha⟩ := outcome_small h2 h13 s
    exact ⟨_, a, hf.1, hf.2.1, hf.2.2, ha⟩
  by_cases hs : s = 0
  · subst hs
    have hd : ¬ degenerate t n := h.resolve_left fun hne => hne rfl
    by_cases h20 : t ≤ 20
    · obtain ⟨p, hp, rfl, hpn⟩ := exists_mem_selections (by omega) h20 htn hd
      obtain ⟨hnd, hlen, hmem, ho⟩ := selections_spec p hp
      refine ⟨p.2.2, 1, hnd, fun x hx => ?_, hlen,
        outcome_ne_of_natOutcome (fun x hx => (hmem x hx).2.2) ho⟩
      exact ⟨(hmem x hx).1, (hmem x hx).2.1.trans hpn⟩
    · unfold degenerate at hd
      refine ⟨wideSelection t, 1, wideSelection_nodup t, wideSelection_mem (by omega) (by omega), ?_,
        outcome_wideSelection t⟩
      simp only [wideSelection, odds, length_cons, length_append, length_map, length_range, length_nil]
      omega
  · refine ⟨_, 0, hf.1, hf.2.1, hf.2.2, ?_⟩
    rw [outcome_large (by omega)]
    exact fun h0 => hs h0.symm

theorem recovers_zero_of_degenerate {key : List Byte} (hke : ∀ b ∈ key, b = 0)
    (hd : degenerate config.threshold.toNat config.totalShares.toNat) : Recovers config key := by
  intro now coeffs shares chosen hsp hnd hmem hlen
  obtain ⟨ha, rfl⟩ := splitKey_eq_ok.mp hsp
  have ht := ha.1
  have hsh : ∀ s ∈ chosen, ∃ i < config.totalShares.toNat,
      s = shareAt config now key coeffs i := by
    intro s hs
    obtain ⟨i, hi, rfl⟩ := mem_map.mp (hmem s hs)
    exact ⟨i, mem_range.mp hi, rfl⟩
  obtain ⟨secret, hse, hl, hby⟩ := recoverKey_eq_ok key.length (by omega) hlen (by
      intro s hs
      obtain ⟨i, -, rfl⟩ := hsh s hs
      simp [shareAt])
  have hindex : ∀ s ∈ chosen, s.index = (s.index.toNat : Int) ∧ 1 ≤ s.index.toNat ∧
      s.index.toNat ≤ config.totalShares.toNat := by
    intro s hs
    obtain ⟨i, hi, rfl⟩ := hsh s hs
    simp only [shareAt]
    omega
  have hin : ∀ s ∈ chosen, ∀ s' ∈ chosen, s.index.toNat = s'.index.toNat → s = s' := by
    intro s hs s' hs' heq
    obtain ⟨i, hi, rfl⟩ := hsh s hs
    obtain ⟨j, hj, rfl⟩ := hsh s' hs'
    have hij : i = j := by
      simp only [shareAt] at heq
      omega
    rw [hij]
  have hxs : chosen.map Share.index =
      (chosen.map fun s => s.index.toNat).map fun (x : Nat) => (x : Int) := by
    rw [map_map]
    exact map_congr_left fun s hs => (hindex s hs).1
  have hw : ∀ w ∈ weights (chosen.map Share.index), w = 0 := by
    rw [hxs]
    refine indexWeights_of_degenerate hd (hnd.map_on hin) ?_ ?_
    · intro x hx
      obtain ⟨s, hs, rfl⟩ := mem_map.mp hx
      exact (hindex s hs).2
    · rw [length_map]
      omega
  rw [hse]
  congr 1
  refine ext_getElem hl fun k hk hk' => ?_
  have hb := hby k hk'
  rw [recoveredByte_eq, xorAll_zipWith_of_zero hw] at hb
  rw [hke _ (getElem_mem hk'), ← hb]
  simp [getD_eq_getElem?_getD, hk]

/-- **`RecoverKey` gives back exactly two kinds of keys**: the empty key, and all-zero
keys under a degenerate configuration. -/
theorem recovers_iff {config : ShamirConfig} (h : Accepted config) (key : List Byte) :
    Recovers config key ↔ key = [] ∨
      ((∀ b ∈ key, b = 0) ∧ degenerate config.threshold.toNat config.totalShares.toNat) := by
  constructor
  · intro hr
    by_contra hne
    rw [not_or] at hne
    obtain ⟨he, hba⟩ := hne
    -- a position whose byte some selection loses
    have hp : ∃ k, k < key.length ∧ (key.getD k 0 ≠ 0 ∨
        ¬ degenerate config.threshold.toNat config.totalShares.toNat) := by
      by_cases hd : degenerate config.threshold.toNat config.totalShares.toNat
      · have hex : ∃ b ∈ key, b ≠ 0 := by
          by_contra hall
          push Not at hall
          exact hba ⟨hall, hd⟩
        obtain ⟨b, hb, hb0⟩ := hex
        obtain ⟨k, hk, rfl⟩ := mem_iff_getElem.mp hb
        exact ⟨k, hk, .inl (by simpa [hk] using hb0)⟩
      · exact ⟨0, length_pos_iff.mpr he, .inr hd⟩
    obtain ⟨k, hk, hby⟩ := hp
    obtain ⟨ht, htn⟩ := h
    obtain ⟨xs, a, hnd, hmem, hlen, ho⟩ :=
      exists_outcome_ne (t := config.threshold.toNat) (by omega) (by omega) hby
    exact not_recovers_of_outcome ⟨ht, htn⟩ hk hnd hmem hlen ho hr
  · rintro (rfl | ⟨hke, hd⟩)
    · intro now coeffs shares chosen hsp hnd hmem hlen
      obtain ⟨ha, rfl⟩ := splitKey_eq_ok.mp hsp
      have ht := ha.1
      obtain ⟨secret, hse, hl, -⟩ := recoverKey_eq_ok 0 (by omega) hlen (by
        intro s hs
        obtain ⟨i, -, rfl⟩ := mem_map.mp (hmem s hs)
        simp [shareAt])
      rw [hse, length_eq_zero_iff.mp hl]
    · exact recovers_zero_of_degenerate hke hd

def pairConfig : ShamirConfig := { totalShares := 2, threshold := 2, shareholderIDs := [] }

theorem recovers_iff_pair : Accepted pairConfig ∧ (Recovers pairConfig [1] ↔ [(1 : Byte)] = [] ∨
      ((∀ b ∈ [(1 : Byte)], b = 0) ∧
        degenerate pairConfig.threshold.toNat pairConfig.totalShares.toNat)) :=
  ⟨by decide, recovers_iff (by decide) [1]⟩

/-- The two shares of the key `01` when the random coefficient is zero. -/
def pairShares : List Share :=
  [{ id := "share-1", index := 1, data := [1], created := 0, threshold := 2, totalShares := 2 },
   { id := "share-2", index := 2, data := [1], created := 0, threshold := 2, totalShares := 2 }]

/-- Splitting the key `01` two-of-two with a zero coefficient and recovering from both
shares returns `00`. -/
theorem recoverKey_pairShares :
    splitKey pairConfig 0 [1] (fun _ => some fun _ => 0) = .ok pairShares ∧
      recoverKey pairConfig pairShares = .ok [0] := by
  refine ⟨by decide, ?_⟩
  obtain ⟨secret, hs, hl, hby⟩ :=
    recoverKey_eq_ok 1 (show 0 < pairConfig.threshold by decide)
      (show (pairShares.length : Int) = pairConfig.threshold by decide) (by decide)
  have hw : indexWeights [1, 2] = [254, 255] := by
    refine map_injective_iff.mpr (fun _ _ => toNat_inj.mp) ?_
    rw [← weightsEval_eq]
    decide
  have hbt : recoveredByte pairShares 0 = 0 := by
    change xorAll (zipWith gfMul [1, 1] (indexWeights [1, 2])) = 0
    rw [hw]
    simp only [zipWith_cons_cons, zipWith_nil_left, xorAll_cons, xorAll_nil,
      gfMul_eq_power (show (1 : Byte) ≠ 0 by decide) (show (254 : Byte) ≠ 0 by decide),
      gfMul_eq_power (show (1 : Byte) ≠ 0 by decide) (show (255 : Byte) ≠ 0 by decide)]
    decide
  obtain ⟨b, rfl⟩ := length_eq_one_iff.mp hl
  have hb := hby 0 (by decide)
  rw [hbt] at hb
  rw [hs, show b = 0 from hb]

end Bib.Shamir
