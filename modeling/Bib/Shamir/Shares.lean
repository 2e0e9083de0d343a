import Bib.Shamir.Galois

/-!
# Bib.Shamir.Shares

**Splitting and recovering a key** (`ShamirManager` in `encryption/shamir.go`). `splitKey` evaluates one
polynomial per key byte at `1, …, TotalShares`; `recoverKey` combines the first `Threshold` shares with the
Lagrange coefficients of the point `0`. The coefficients are formed in Go's `int` (`wrap64`), and `gfDiv` keeps
the low byte of the numerator. `rand i` is what `rand.Read` leaves in the `i`-th coefficient.

The second half restates both functions entrywise (`splitKey_eq_ok`, `recoverKey_eq_ok`).
-/

namespace Bib.Shamir

open List

abbrev Time := Int

structure ShamirConfig where
  (totalShares threshold : Int)
  shareholderIDs : List String
  deriving DecidableEq

structure Share where
  id : String
  /-- The x-coordinate in the polynomial (1-indexed). -/
  index : Int
  data : List Byte
  created : Time
  (threshold totalShares : Int)
  deriving DecidableEq

/-- The ways splitting or recovering can fail. -/
inductive ShamirError
  | totalBelowThreshold (total threshold : Int)
  | thresholdTooSmall
  | coefficient
  | insufficientShares (need : Int) (got : Nat)
  | invalidShare
  /-- A slice expression out of range (`shares[:t]`, `shares[0]`). -/
  | panic
  deriving DecidableEq

def ShamirError.message : ShamirError → String
  | totalBelowThreshold n t => s!"total shares ({n}) must be >= threshold ({t})"
  | thresholdTooSmall => "threshold must be at least 2"
  | coefficient => "failed to generate coefficient"
  | insufficientShares need got => s!"insufficient shares for recovery: need {need}, got {got}"
  | invalidShare => "invalid share"
  | panic => "runtime error: slice bounds out of range"

/-! ### Machine integers -/

/-- The value of a Go `int` expression: two's complement with 64 bits. -/
def wrap64 (n : Int) : Int := n.bmod (2 ^ 64)

theorem ofInt_natCast (x : Nat) : UInt8.ofInt (x : Int) = UInt8.ofNat x := by
  apply UInt8.toNat_inj.mp
  rw [UInt8.toNat_ofNat', UInt8.ofInt, UInt8.toNat_ofNat']
  omega

/-- The loop `for r < 0 { r += 256 }` of `gfDiv`. -/
def addUntilNonneg (r : Int) : Int :=
  if r < 0 then addUntilNonneg (r + 256) else r
termination_by (-r).toNat

/-- `gfDiv`. The denominator only decides whether the result is forced to `0`. -/
def gfDiv (num denom : Int) : Byte :=
  let result := addUntilNonneg num
  let denom := addUntilNonneg denom
  if denom = 0 then 0 else UInt8.ofNat (result % 256).toNat

/-! ### Splitting -/

/-- `evaluatePolynomial`: Horner's scheme for every byte position, from the last
coefficient down to the secret. -/
def evaluatePolynomial (coefficients : List (List Byte)) (x : Int) : List Byte :=
  let keyLen := (coefficients.headD []).length
  (List.range keyLen).map fun k =>
    coefficients.foldr (fun coeff value => gfMul value (UInt8.ofInt x) ^^^ coeff.getD k 0) 0

/-- The loop that draws the coefficients `1, …, threshold - 1`. -/
def drawCoefficients {n : Nat} (rand : Nat → Option (Fin n → Byte)) (threshold : Int) : Option (List (List Byte)) :=
  (List.range' 1 (threshold - 1).toNat).mapM fun i => (rand i).map List.ofFn

def shareID (config : ShamirConfig) (i : Nat) : String :=
  if h : i < config.shareholderIDs.length then config.shareholderIDs[i]
  else s!"share-{i + 1}"

def splitKey (config : ShamirConfig) (now : Time) (key : List Byte)
    (rand : Nat → Option (Fin key.length → Byte)) : Except ShamirError (List Share) :=
  if config.totalShares < config.threshold then
    .error (.totalBelowThreshold config.totalShares config.threshold)
  else if config.threshold < 2 then .error .thresholdTooSmall
  else
    match drawCoefficients rand config.threshold with
    | none => .error .coefficient
    | some coefficients =>
      .ok <| (List.range config.totalShares.toNat).map fun (i : Nat) =>
        let x : Int := i + 1
        { id := shareID config i
          index := x
          data := evaluatePolynomial (key :: coefficients) x
          created := now
          threshold := config.threshold
          totalShares := config.totalShares }

/-! ### Recovering -/

/-- The two products of the inner loop of `RecoverKey` for the share at position `i`:
`Π (0 - x_j)` and `Π (x_i - x_j)` over the other positions. -/
def lagrangeProducts (shares : List Share) (i : Nat) (share : Share) : Int × Int :=
  shares.zipIdx.foldl
    (fun products other =>
      if i = other.2 then products
      else (wrap64 (products.1 * -other.1.index),
        wrap64 (products.2 * wrap64 (share.index - other.1.index))))
    (1, 1)

def lagrangeCoefficient (shares : List Share) (i : Nat) (share : Share) : Byte :=
  let products := lagrangeProducts shares i share
  gfDiv products.1 products.2

/-- Adding one share's contribution to the secret. -/
def addContribution (secret : List Byte) (data : List Byte) (coefficient : Byte) : List Byte :=
  secret.mapIdx fun k b => b ^^^ gfMul (data.getD k 0) coefficient

def recoverKey (config : ShamirConfig) (shares : List Share) : Except ShamirError (List Byte) :=
  if (shares.length : Int) < config.threshold then
    .error (.insufficientShares config.threshold shares.length)
  else if config.threshold < 0 then .error .panic
  else
    match shares.take config.threshold.toNat with
    | [] => .error .panic
    | first :: rest =>
      let shares := first :: rest
      let keyLen := first.data.length
      if shares.any fun share => share.data.length ≠ keyLen then .error .invalidShare
      else
        .ok <| shares.zipIdx.foldl
          (fun secret share =>
            addContribution secret share.1.data (lagrangeCoefficient shares share.2 share.1))
          (List.replicate keyLen 0)

/-! ### Splitting, entrywise -/

/-- Horner's scheme for one byte position. -/
def horner (x : Byte) (coefficients : List Byte) : Byte :=
  coefficients.foldr (fun coeff value => gfMul value x ^^^ coeff) 0

@[simp] theorem horner_cons (x c : Byte) (cs : List Byte) : horner x (c :: cs) = gfMul (horner x cs) x ^^^ c := rfl

theorem horner_replicate_zero (x : Byte) (n : Nat) : horner x (replicate n 0) = 0 := by
  induction n with
  | zero => rfl
  | succ n ih => rw [replicate_succ, horner_cons, ih]; simp

@[simp] theorem evaluatePolynomial_length (key : List Byte) (cs : List (List Byte)) (x : Int) :
    (evaluatePolynomial (key :: cs) x).length = key.length := by
  simp [evaluatePolynomial]

theorem evaluatePolynomial_getD (key : List Byte) (cs : List (List Byte)) (x : Int) {k : Nat}
    (hk : k < key.length) : (evaluatePolynomial (key :: cs) x).getD k 0 =
      horner (UInt8.ofInt x) (key.getD k 0 :: cs.map fun c => c.getD k 0) := by
  have hc : (key.getD k 0 :: cs.map fun c => c.getD k 0) = (key :: cs).map fun c => c.getD k 0 := rfl
  rw [hc, horner, foldr_map, evaluatePolynomial, getD_eq_getElem?_getD]
  simp [getElem?_range hk]

/-- The coefficient vectors a successful run draws. -/
def drawn {n : Nat} (threshold : Int) (coeffs : Nat → Fin n → Byte) : List (List Byte) :=
  (List.range' 1 (threshold - 1).toNat).map fun i => List.ofFn (coeffs i)

theorem drawCoefficients_some {n : Nat} (coeffs : Nat → Fin n → Byte) (threshold : Int) :
    drawCoefficients (fun i => some (coeffs i)) threshold = some (drawn threshold coeffs) := by
  unfold drawCoefficients drawn
  induction range' 1 (threshold - 1).toNat with
  | nil => rfl
  | cons i is ih =>
    rw [mapM_cons, ih]
    rfl

/-- The share that `splitKey` puts at position `i` (its index is `i + 1`). -/
def shareAt (config : ShamirConfig) (now : Time) (key : List Byte)
    (coeffs : Nat → Fin key.length → Byte) (i : Nat) : Share :=
  { id := shareID config i
    index := i + 1
    data := evaluatePolynomial (key :: drawn config.threshold coeffs) (i + 1)
    created := now
    threshold := config.threshold
    totalShares := config.totalShares }

/-- The configurations `SplitKey` does not refuse. -/
def Accepted (config : ShamirConfig) : Prop :=
  2 ≤ config.threshold ∧ config.threshold ≤ config.totalShares

instance (config : ShamirConfig) : Decidable (Accepted config) :=
  inferInstanceAs (Decidable (_ ∧ _))

variable {config : ShamirConfig} {shares : List Share}

/-- With every random read succeeding, `splitKey` succeeds exactly on the accepted
configurations, with one share per position. -/
theorem splitKey_eq_ok {now : Time} {key : List Byte}
    {coeffs : Nat → Fin key.length → Byte} :
    splitKey config now key (fun i => some (coeffs i)) = .ok shares ↔ Accepted config ∧
        shares = (range config.totalShares.toNat).map (shareAt config now key coeffs) := by
  unfold splitKey Accepted
  rw [drawCoefficients_some]
  by_cases hn : config.totalShares < config.threshold
  · rw [if_pos hn]
    constructor
    · intro h; cases h
    · rintro ⟨⟨-, h⟩, -⟩; omega
  · rw [if_neg hn]
    by_cases ht : config.threshold < 2
    · rw [if_pos ht]
      constructor
      · intro h; cases h
      · rintro ⟨⟨h, -⟩, -⟩; omega
    · rw [if_neg ht]
      constructor
      · intro h
        exact ⟨⟨by omega, by omega⟩, (Except.ok.inj h).symm⟩
      · rintro ⟨-, rfl⟩
        rfl

/-! ### Recovering, entrywise -/

def xorAll (bytes : List Byte) : Byte := bytes.foldr (· ^^^ ·) 0

@[simp] theorem xorAll_nil : xorAll [] = 0 := rfl

@[simp] theorem xorAll_cons (b : Byte) (bs : List Byte) : xorAll (b :: bs) = b ^^^ xorAll bs := rfl

theorem xorAll_eq_zero {bytes : List Byte} (h : ∀ b ∈ bytes, b = 0) : xorAll bytes = 0 := by
  induction bytes with
  | nil => rfl
  | cons b bs ih =>
    rw [xorAll_cons, h b (by simp), ih fun b hb => h b (by simp [hb])]
    rfl

@[simp] theorem addContribution_length (secret data : List Byte) (coefficient : Byte) :
    (addContribution secret data coefficient).length = secret.length := by
  simp [addContribution]

theorem addContribution_getD (secret data : List Byte) (coefficient : Byte) {k : Nat}
    (hk : k < secret.length) : (addContribution secret data coefficient).getD k 0 =
      secret.getD k 0 ^^^ gfMul (data.getD k 0) coefficient := by
  simp [addContribution, getD_eq_getElem?_getD, hk]

theorem foldl_addContribution_getD {k : Nat} (shares : List (Share × Nat)) (w : Share × Nat → Byte)
    (secret : List Byte) (hk : k < secret.length) :
    (shares.foldl (fun secret share => addContribution secret share.1.data (w share)) secret).getD
        k 0 =
      secret.getD k 0 ^^^ xorAll (shares.map fun share => gfMul (share.1.data.getD k 0) (w share)) := by
  induction shares generalizing secret with
  | nil => simp
  | cons share shares ih =>
    rw [foldl_cons, ih _ (by simpa using hk), addContribution_getD _ _ _ hk, map_cons,
      xorAll_cons, UInt8.xor_assoc]

theorem foldl_addContribution_length (shares : List (Share × Nat)) (w : Share × Nat → Byte) (secret : List Byte) :
    (shares.foldl (fun secret share => addContribution secret share.1.data (w share))
      secret).length = secret.length := by
  induction shares generalizing secret with
  | nil => rfl
  | cons share shares ih => rw [foldl_cons, ih, addContribution_length]

/-- The byte `RecoverKey` writes at position `k`. -/
def recoveredByte (shares : List Share) (k : Nat) : Byte :=
  xorAll (shares.zipIdx.map fun share =>
    gfMul (share.1.data.getD k 0) (lagrangeCoefficient shares share.2 share.1))

/-- On exactly `Threshold` shares of one length `RecoverKey` succeeds, and every byte
it returns is the weighted sum of the shares' bytes. -/
theorem recoverKey_eq_ok (keyLen : Nat) (ht : 0 < config.threshold) (hlen : (shares.length : Int) = config.threshold)
    (hdata : ∀ share ∈ shares, share.data.length = keyLen) :
    ∃ secret, recoverKey config shares = .ok secret ∧ secret.length = keyLen ∧
      ∀ k < keyLen, secret.getD k 0 = recoveredByte shares k := by
  have hta : shares.take config.threshold.toNat = shares := take_of_length_le (by omega)
  unfold recoverKey
  rw [if_neg (by omega), if_neg (by omega), hta]
  cases shares with
  | nil => simp at hlen; omega
  | cons first rest =>
    have hf : first.data.length = keyLen := hdata first (by simp)
    have ha : ((first :: rest).any fun share =>
        decide (share.data.length ≠ first.data.length)) = false := by
      rw [any_eq_false]
      intro share hs
      simp [hdata share hs, hf]
    dsimp only
    rw [if_neg (by rw [ha]; simp)]
    refine ⟨_, rfl, ?_, ?_⟩
    · rw [foldl_addContribution_length, length_replicate, hf]
    · intro k hk
      have hk' : k < (replicate first.data.length (0 : Byte)).length := by
        rw [length_replicate, hf]; exact hk
      rw [foldl_addContribution_getD _ _ _ hk', getD_replicate _ (by omega), recoveredByte,
        UInt8.zero_xor]

end Bib.Shamir
