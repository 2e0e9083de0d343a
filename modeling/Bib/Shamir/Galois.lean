import Mathlib

/-!
# Bib.Shamir.Galois

The **GF(256) arithmetic** behind key recovery (`encryption/shamir.go`): the table-free product `gfMulNoTable`,
the `init` loops that fill `gfExp`/`gfLog` from it, the table product `gfMul` and the coefficient routine
`gfDiv`.

The tables are filled by repeated doubling, and with the reduction polynomial `x^8 + x^4 + x^3 + x + 1` doubling
has order 51, not 255. So `gfMul` still vanishes exactly when an argument does (`gfMul_eq_zero_iff`), but 204 of
the 255 non-zero bytes keep the initial logarithm `0` (`card_logless`).
-/

namespace Bib.Shamir

open List

/-- Go's `byte`. -/
abbrev Byte := UInt8

/-! ### The product without tables -/

/-- The loop of `gfMulNoTable`. A byte has eight bits and `b` is halved in every
round, so eight rounds of fuel always reach the exit `b = 0`
(`gfMulNoTableLoop_fuel`). -/
def gfMulNoTableLoop : Nat → Byte → Byte → Byte → Byte
  | 0, _, _, result => result
  | fuel + 1, a, b, result =>
    if b = 0 then result
    else
      let result := if b &&& 1 ≠ 0 then result ^^^ a else result
      let high := a &&& 0x80
      let a := a <<< 1
      -- AES field polynomial reduction
      let a := if high ≠ 0 then a ^^^ 0x1b else a
      gfMulNoTableLoop fuel a (b >>> 1) result

/-- `gfMulNoTable`: multiply two bytes by shift and add. -/
def gfMulNoTable (a b : Byte) : Byte :=
  gfMulNoTableLoop 8 a b 0

theorem gfMulNoTableLoop_fuel (n k : Nat) (a b result : Byte) (hb : b.toNat < 2 ^ n) :
    gfMulNoTableLoop (n + k) a b result = gfMulNoTableLoop n a b result := by
  induction n generalizing a b result with
  | zero =>
    obtain rfl : b = 0 := UInt8.toNat_inj.mp (by simpa using hb)
    cases k <;> simp [gfMulNoTableLoop]
  | succ n ih =>
    rw [Nat.succ_add, gfMulNoTableLoop, gfMulNoTableLoop]
    by_cases hb0 : b = 0
    · rw [if_pos hb0, if_pos hb0]
    · rw [if_neg hb0, if_neg hb0]
      apply ih
      have hs : (b >>> 1).toNat = b.toNat / 2 := by
        simp [UInt8.toNat_shiftRight, Nat.shiftRight_eq_div_pow]
      omega

/-! ### The tables -/

/-- The two package variables `gfExp` (512 entries) and `gfLog` (256 entries). -/
structure Tables where
  (exp log : List Byte)

/-- The first loop of `init`, from index `i` for `n` more rounds: record the
current power `x` under its exponent and its exponent under `x`, then double. -/
def initLoop : Nat → Nat → Byte → Tables → Tables
  | 0, _, _, tables => tables
  | n + 1, i, x, tables =>
    initLoop n (i + 1) (gfMulNoTable x 2)
      { exp := tables.exp.set i x, log := tables.log.set x.toNat (UInt8.ofNat i) }

/-- The second loop of `init`: `gfExp[i] = gfExp[i-255]` for `n` more rounds. -/
def copyLoop : Nat → Nat → List Byte → List Byte
  | 0, _, exp => exp
  | n + 1, i, exp => copyLoop n (i + 1) (exp.set i (exp.getD (i - 255) 0))

/-- The package variables before `init` runs. -/
def zeroTables : Tables := { exp := List.replicate 512 0, log := List.replicate 256 0 }

def initTables : Tables :=
  let filled := initLoop 255 0 1 zeroTables
  { exp := copyLoop 257 255 filled.exp, log := filled.log }

/-! ### What the loops leave in the tables

Both tables are read off the sequence `x = 1, 2, 4, …` of the first loop, so it is
enough to know that sequence: it runs through the 51 bytes of `powers` and starts
over. -/

/-- The 51 distinct powers of two in the order the first loop meets them. -/
def powers : List Byte :=
  [1, 2, 4, 8, 16, 32, 64, 128, 27, 54, 108, 216, 171, 77, 154, 47, 94, 188, 99, 198, 151,
   53, 106, 212, 179, 125, 250, 239, 197, 145, 57, 114, 228, 211, 189, 97, 194, 159, 37, 74,
   148, 51, 102, 204, 131, 29, 58, 116, 232, 203, 141]

/-- The value of `x` after `k` rounds of the first loop. -/
def power (k : Nat) : Byte := powers.getD (k % 51) 0

theorem gfMulNoTable_power (k : Nat) : gfMulNoTable (power k) 2 = power (k + 1) := by
  have hc : ∀ j < 51, gfMulNoTable (powers.getD j 0) 2 = powers.getD ((j + 1) % 51) 0 := by
    decide
  rw [power, power, hc _ (Nat.mod_lt _ (by omega)), Nat.mod_add_mod]

theorem power_ne_zero (k : Nat) : power k ≠ 0 := by
  have hp : ∀ j < 51, powers.getD j 0 ≠ 0 := by decide
  exact hp _ (Nat.mod_lt _ (by omega))

theorem power_mem (k : Nat) : power k ∈ powers := by
  have hp : ∀ j < 51, powers.getD j 0 ∈ powers := by decide
  exact hp _ (Nat.mod_lt _ (by omega))

variable {v : Byte}

theorem exists_power_of_mem (hv : v ∈ powers) : ∃ j < 51, v = power j := by
  obtain ⟨j, hj, rfl⟩ := mem_iff_getElem.mp hv
  have hlen : powers.length = 51 := rfl
  refine ⟨j, by omega, ?_⟩
  rw [power, Nat.mod_eq_of_lt (by omega), getD_eq_getElem _ _ hj]

theorem getD_set {α : Type} (l : List α) (i j : Nat) (a d : α) (h : i < l.length) :
    (l.set i a).getD j d = if j = i then a else l.getD j d := by
  by_cases hij : j = i
  · subst hij
    simp [getD_eq_getElem?_getD, h]
  · simp [getD_eq_getElem?_getD, getElem?_set_ne (Ne.symm hij), hij]

/-- The first loop writes the power `power j` under every exponent `j` it covers. -/
theorem initLoop_exp (n i : Nat) (tables : Tables) (hlen : i + n ≤ tables.exp.length) (j : Nat) :
    (initLoop n i (power i) tables).exp.getD j 0 =
      if i ≤ j ∧ j < i + n then power j else tables.exp.getD j 0 := by
  induction n generalizing i tables with
  | zero => rw [initLoop, if_neg (by omega)]
  | succ n ih =>
    rw [initLoop, gfMulNoTable_power, ih (i + 1) _ (by simpa using by omega),
      getD_set _ _ _ _ _ (by omega)]
    by_cases hji : j = i
    · subst hji
      rw [if_neg (by omega), if_pos rfl, if_pos (by omega)]
    · rw [if_neg hji]
      by_cases hin : i + 1 ≤ j ∧ j < i + 1 + n
      · rw [if_pos hin, if_pos (by omega)]
      · rw [if_neg hin, if_neg (by omega)]

theorem initLoop_exp_length (n i : Nat) (x : Byte) (tables : Tables) :
    (initLoop n i x tables).exp.length = tables.exp.length := by
  induction n generalizing i x tables with
  | zero => rfl
  | succ n ih => rw [initLoop, ih]; simp

theorem copyLoop_getD (n i : Nat) (exp : List Byte) (hi : 255 ≤ i)
    (hlen : i + n ≤ exp.length) (he : ∀ j < i, exp.getD j 0 = power j) :
    ∀ j < i + n, (copyLoop n i exp).getD j 0 = power j := by
  induction n generalizing i exp with
  | zero => exact he
  | succ n ih =>
    intro j hj
    refine ih (i + 1) _ (by omega) (by simpa using by omega) ?_ j (by omega)
    intro j hj
    rw [getD_set _ _ _ _ _ (by omega)]
    by_cases hji : j = i
    · -- 255 is a multiple of the cycle length, so the copied entry is the right power
      have hm : (i - 255) % 51 = i % 51 := by omega
      rw [if_pos hji, he _ (by omega), hji, power, hm, power]
    · rw [if_neg hji]
      exact he j (by omega)

/-- The value the first loop leaves at one entry `v` of the log table, given what
stood there before. -/
def lastVisit (v : Byte) : Nat → Nat → Byte → Byte
  | 0, _, old => old
  | n + 1, i, old => lastVisit v n (i + 1) (if v = power i then UInt8.ofNat i else old)

theorem initLoop_log (n i : Nat) (tables : Tables) (hlen : tables.log.length = 256) (v : Byte) :
    (initLoop n i (power i) tables).log.getD v.toNat 0 =
      lastVisit v n i (tables.log.getD v.toNat 0) := by
  induction n generalizing i tables with
  | zero => rfl
  | succ n ih =>
    have hx := (power i).toNat_lt
    rw [initLoop, gfMulNoTable_power, ih (i + 1) _ (by simpa using hlen), lastVisit,
      getD_set _ _ _ _ _ (by omega)]
    simp [UInt8.toNat_inj]

/-- A byte outside the cycle keeps its old entry. -/
theorem lastVisit_of_not_mem (hv : v ∉ powers) (n i : Nat) (old : Byte) : lastVisit v n i old = old := by
  induction n generalizing i old with
  | zero => rfl
  | succ n ih =>
    have hne : v ≠ power i := fun h => hv (h ▸ power_mem i)
    rw [lastVisit, if_neg hne, ih]

def gfExp (i : Nat) : Byte := initTables.exp.getD i 0

def gfLog (a : Byte) : Byte := initTables.log.getD a.toNat 0

def gfMul (a b : Byte) : Byte :=
  if a = 0 ∨ b = 0 then 0 else gfExp ((gfLog a).toNat + (gfLog b).toNat)

/-- Every in-range read of the anti-log table is a power of two. -/
theorem gfExp_eq {i : Nat} (h : i < 512) : gfExp i = power i := by
  have hlen : zeroTables.exp.length = 512 := length_replicate
  have hf : ∀ j < 255, (initLoop 255 0 (power 0) zeroTables).exp.getD j 0 = power j := by
    intro j hj
    rw [initLoop_exp 255 0 zeroTables (by omega) j, if_pos (by omega)]
  unfold gfExp initTables
  dsimp only
  exact copyLoop_getD 257 255 _ le_rfl (by rw [initLoop_exp_length]; omega) hf i (by omega)

theorem gfLog_eq (v : Byte) : gfLog v = lastVisit v 255 0 0 := by
  have hlen : zeroTables.log.length = 256 := length_replicate
  have hz : zeroTables.log.getD v.toNat 0 = 0 := by
    have hv := v.toNat_lt
    exact getD_replicate _ (by omega)
  have hl := initLoop_log 255 0 zeroTables hlen v
  rw [hz] at hl
  unfold gfLog initTables
  dsimp only
  exact hl

theorem gfLog_of_not_mem (hv : v ∉ powers) : gfLog v = 0 := by
  rw [gfLog_eq, lastVisit_of_not_mem hv]

/-- The log of a power of two is the exponent of its *last* visit. -/
theorem gfLog_power {j : Nat} (hj : j < 51) : gfLog (power j) = UInt8.ofNat (204 + j) := by
  have hall : ∀ j < 51, lastVisit (power j) 255 0 0 = UInt8.ofNat (204 + j) := by
    decide +kernel
  rw [gfLog_eq, hall j hj]

theorem gfExp_ne_zero {i : Nat} (h : i < 512) : gfExp i ≠ 0 := by
  rw [gfExp_eq h]
  exact power_ne_zero i

@[simp] theorem gfMul_zero_left (b : Byte) : gfMul 0 b = 0 := by simp [gfMul]

@[simp] theorem gfMul_zero_right (a : Byte) : gfMul a 0 = 0 := by simp [gfMul]

/-- `gfMul` has no zero divisors, whatever the tables do to the other products. -/
theorem gfMul_eq_zero_iff (a b : Byte) : gfMul a b = 0 ↔ a = 0 ∨ b = 0 := by
  constructor
  · intro h
    by_contra hne
    rw [gfMul, if_neg hne] at h
    have ha := (gfLog a).toNat_lt
    have hb := (gfLog b).toNat_lt
    exact gfExp_ne_zero (by omega) h
  · intro h
    rw [gfMul, if_pos h]

/-- Two non-zero bytes with the same logarithm are the same factor to `gfMul`. -/
theorem gfMul_congr_left {a a' : Byte} (ha : a ≠ 0) (ha' : a' ≠ 0)
    (hl : gfLog a = gfLog a') (b : Byte) : gfMul a b = gfMul a' b := by
  unfold gfMul
  simp [ha, ha', hl]

/-- The exponent `gfMul` uses for a byte, up to the cycle length: the position in the
cycle, and `0` for a byte outside it. -/
def cycleLog (v : Byte) : Nat := powers.idxOf v % 51

theorem gfLog_mod (v : Byte) : (gfLog v).toNat % 51 = cycleLog v := by
  have hi : ∀ j < 51, powers.idxOf (power j) = j := by decide +kernel
  have hr : ∀ j < 51, (UInt8.ofNat (204 + j)).toNat % 51 = j % 51 := by decide
  by_cases hv : v ∈ powers
  · obtain ⟨j, hj, rfl⟩ := exists_power_of_mem hv
    rw [gfLog_power hj, cycleLog, hi j hj, hr j hj]
  · rw [gfLog_of_not_mem hv, cycleLog, idxOf_eq_length hv]
    rfl

/-- What the table product computes: it adds exponents in the cycle, so a byte outside
the cycle is multiplied as if it were `1`. -/
theorem gfMul_eq_power {a b : Byte} (ha : a ≠ 0) (hb : b ≠ 0) : gfMul a b = power (cycleLog a + cycleLog b) := by
  have hla := (gfLog a).toNat_lt
  have hlb := (gfLog b).toNat_lt
  rw [gfMul, if_neg (by simp [ha, hb]), gfExp_eq (by omega), power, power, ← gfLog_mod a,
    ← gfLog_mod b, ← Nat.add_mod]

/-! ### Bytes the first loop never visits -/

/-- The non-zero bytes whose logarithm is still the initial `0`. -/
def logless : Finset Byte :=
  Finset.univ.filter fun v => v ≠ 0 ∧ gfLog v = 0

theorem mem_logless : v ∈ logless ↔ v ≠ 0 ∧ gfLog v = 0 := by
  simp [logless]

/-- The logless bytes are exactly the non-zero bytes outside the cycle. -/
theorem mem_logless_iff : v ∈ logless ↔ v ≠ 0 ∧ v ∉ powers := by
  rw [mem_logless]
  refine and_congr_right fun _ => ⟨?_, gfLog_of_not_mem⟩
  intro hl hv
  obtain ⟨j, hj, rfl⟩ := exists_power_of_mem hv
  have hne : ∀ j < 51, UInt8.ofNat (204 + j) ≠ 0 := by decide
  exact hne j hj (gfLog_power hj ▸ hl)

/-- Powers of two reach 51 bytes only; every other non-zero byte is logless. -/
theorem card_logless : logless.card = 204 := by
  have heq : logless = Finset.univ.filter fun v => v ≠ 0 ∧ v ∉ powers := by
    ext v
    simp [mem_logless_iff]
  decide +kernel

end Bib.Shamir
