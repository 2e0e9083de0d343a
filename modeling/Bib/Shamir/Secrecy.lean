import Bib.Shamir.Shares

/-!
# Bib.Shamir.Secrecy

**What fewer than `Threshold` shares say about the key.** Secrecy would be that every view of the shares is
produced by as many coefficient vectors from one key as from another (`SameCounts`). It fails for any two keys
as soon as one share is seen: the value a share adds to a key byte is `gfMul v x` with `v` uniform, and `gfMul`
by a fixed `x` sends most bytes to one value (`exists_majority`).
-/

namespace Bib.Shamir

open List Function
open UInt8 (ofNat xor_assoc xor_zero)
open Finset (card_univ coe_filter mem_univ sum_congr univ)

/-! ### Counting -/

section Counting

variable {α β : Type} [Fintype α] [DecidableEq β]

/-- Maps with equally likely views make every property of the view equally likely. -/
theorem card_filter_congr {f g : α → β} (h : ∀ v, (univ.filter fun a => f a = v).card =
      (univ.filter fun a => g a = v).card) (q : β → Prop) [DecidablePred q] :
    (univ.filter fun a => q (f a)).card = (univ.filter fun a => q (g a)).card := by
  have hmap : univ.val.map f = univ.val.map g := by
    ext v
    rw [Multiset.count_map, Multiset.count_map]
    simp only [eq_comm (a := v)]
    exact h v
  have hcount : ∀ k : α → β, (univ.filter fun a => q (k a)).card = (univ.val.map k).countP q :=
    fun k => (Multiset.countP_map k univ.val q).symm
  rw [hcount f, hcount g, hmap]

/-- A map whose fibres all have `m` elements hits a set proportionally to its size. -/
theorem card_filter_mem {f : α → β} {m : Nat}
    (h : ∀ b, (univ.filter fun a => f a = b).card = m) (s : Finset β) :
    (univ.filter fun a => f a ∈ s).card = s.card * m := by
  rw [← Finset.sum_card_fiberwise_eq_card_filter, sum_congr rfl fun b _ => h b, Finset.sum_const, smul_eq_mul]

end Counting

/-! ### Views -/

/-- The random bytes of one split: a vector of key length for each of the degrees
`1, …, Threshold - 1`. -/
abbrev Choice (config : ShamirConfig) (n : Nat) := Fin (config.threshold - 1).toNat → Fin n → Byte

variable {config : ShamirConfig} {n : Nat}

/-- `rand.Read` returning the bytes of a choice, degree by degree. -/
def Choice.read (c : Choice config n) (key : Fin n → Byte) (i : Nat) : Fin (List.ofFn key).length → Byte :=
  fun j => if h : i - 1 < (config.threshold - 1).toNat then c ⟨i - 1, h⟩ (j.cast (List.length_ofFn))
    else 0

/-- The `Data` of the share at position `x` (counted from 1) of `SplitKey(key)`. -/
def shareData (config : ShamirConfig) (key : Fin n → Byte) (c : Choice config n) (x : Nat) : List Byte :=
  match splitKey config 0 (List.ofFn key) (fun i => some (c.read key i)) with
  | .ok shares => (shares[x - 1]?.map Share.data).getD []
  | .error _ => []

/-- Both keys produce every view of the shares at `positions` equally often. -/
def SameCounts (config : ShamirConfig) (positions : List Nat) (key key' : Fin n → Byte) : Prop :=
  ∀ view : List (List Byte),
    (univ.filter fun c : Choice config n =>
        positions.map (shareData config key c) = view).card =
      (univ.filter fun c : Choice config n => positions.map (shareData config key' c) = view).card

/-- At most `Threshold - 1` different share positions. -/
structure Coalition (config : ShamirConfig) (positions : List Nat) : Prop where
  nodup : positions.Nodup
  mem : ∀ x ∈ positions, 1 ≤ x ∧ (x : Int) ≤ config.totalShares
  length : (positions.length : Int) ≤ config.threshold - 1

/-- What the random coefficients contribute to byte `j` of the share with index `x`,
before the last multiplication. -/
def mask (c : Choice config n) (x : Byte) (j : Fin n) : Byte :=
  horner x (List.ofFn fun i => c i j)

theorem map_drawn (c : Choice config n) (key : Fin n → Byte) (j : Fin n) :
    (drawn config.threshold (c.read key)).map (fun coeff : List Byte => coeff.getD j 0) =
      List.ofFn fun i => c i j := by
  have hj : j.val < (List.ofFn key).length := by simp
  refine List.ext_getElem (by simp [drawn]) fun i hi hi' => ?_
  have hi'' : i < (config.threshold - 1).toNat := by simpa using hi'
  simp only [drawn, Choice.read, List.map_map, List.getElem_map, List.getElem_range',
    comp_apply, List.getD_eq_getElem?_getD, List.getElem?_ofFn, hj, dif_pos,
    Option.getD_some, List.getElem_ofFn, Nat.add_sub_cancel_left, Nat.one_mul, hi'']
  rfl

theorem shareData_eq (h : Accepted config) (key : Fin n → Byte) (c : Choice config n) {x : Nat}
    (h1 : 1 ≤ x) (hx : (x : Int) ≤ config.totalShares) : shareData config key c x =
      List.ofFn fun j => gfMul (mask c (ofNat x) j) (ofNat x) ^^^ key j := by
  unfold shareData
  rw [splitKey_eq_ok.mpr ⟨h, rfl⟩]
  have hx' : ((x - 1 : Nat) : Int) + 1 = (x : Int) := by omega
  have hg : (range config.totalShares.toNat)[x - 1]? = some (x - 1) := getElem?_range (by omega)
  simp only [getElem?_map, hg, Option.map_some, Option.getD_some, shareAt, hx']
  refine ext_getElem (by simp) fun j hj hj' => ?_
  have hjn : j < n := by simpa using hj'
  have hk : j < (ofFn key).length := by simpa using hjn
  have hb := evaluatePolynomial_getD (ofFn key) (drawn config.threshold (c.read key))
    (x : Int) hk
  have hd := map_drawn c key ⟨j, hjn⟩
  rw [hd, ofInt_natCast] at hb
  simp only [getD_eq_getElem?_getD, getElem?_eq_getElem hj,
    List.getElem?_eq_getElem hk, Option.getD_some, List.getElem_ofFn] at hb
  rw [hb, List.getElem_ofFn]
  rfl

/-! ### The mask is uniform -/

/-- Adding `d` to byte `j` of the first random coefficient. -/
def Choice.shift (c : Choice config n) (h : 0 < (config.threshold - 1).toNat) (j : Fin n)
    (d : Byte) : Choice config n :=
  update c ⟨0, h⟩ (update (c ⟨0, h⟩) j (c ⟨0, h⟩ j ^^^ d))

theorem Choice.shift_shift (c : Choice config n) (h : 0 < (config.threshold - 1).toNat) (j : Fin n)
    (d : Byte) : (c.shift h j d).shift h j d = c := by
  unfold Choice.shift
  simp

theorem horner_update_zero {m : Nat} (x : Byte) (f : Fin m → Byte) (h : 0 < m) (d : Byte) :
    horner x (ofFn (update f ⟨0, h⟩ (f ⟨0, h⟩ ^^^ d))) =
      horner x (ofFn f) ^^^ d := by
  cases m with
  | zero => omega
  | succ m =>
    have ht : (fun i : Fin m => update f ⟨0, h⟩ (f ⟨0, h⟩ ^^^ d) i.succ) =
        fun i : Fin m => f i.succ := by
      funext i
      exact update_of_ne (Fin.succ_ne_zero i) _ _
    have hh : update f ⟨0, h⟩ (f ⟨0, h⟩ ^^^ d) 0 = f 0 ^^^ d := update_self (0 : Fin (m + 1)) _ _
    rw [ofFn_succ, ofFn_succ, horner_cons, horner_cons, ht, hh, xor_assoc]

theorem mask_shift (c : Choice config n) (h : 0 < (config.threshold - 1).toNat) (x : Byte)
    (j : Fin n) (d : Byte) : mask (c.shift h j d) x j = mask c x j ^^^ d := by
  have hc : (fun i => c.shift h j d i j) =
      update (fun i => c i j) ⟨0, h⟩ (c ⟨0, h⟩ j ^^^ d) := by
    funext i
    unfold Choice.shift
    by_cases hi : i = ⟨0, h⟩
    · rw [hi, update_self, update_self, update_self]
    · rw [update_of_ne hi, update_of_ne hi]
  unfold mask
  rw [hc, horner_update_zero]

theorem card_mask_eq (h : 0 < (config.threshold - 1).toNat) (x : Byte) (j : Fin n) (b : Byte) :
    (univ.filter fun c : Choice config n => mask c x j = b).card =
      (univ.filter fun c : Choice config n => mask c x j = 0).card := by
  refine Finset.card_nbij' (fun c => c.shift h j b) (fun c => c.shift h j b) ?_ ?_ ?_ ?_
  · intro c hc
    simp only [coe_filter, mem_univ, true_and, Set.mem_ofPred_eq] at hc ⊢
    rw [mask_shift, hc, UInt8.xor_self]
  · intro c hc
    simp only [coe_filter, mem_univ, true_and, Set.mem_ofPred_eq] at hc ⊢
    rw [mask_shift, hc, UInt8.zero_xor]
  · intro c _
    exact c.shift_shift h j b
  · intro c _
    exact c.shift_shift h j b

theorem card_bytes : (univ : Finset Byte).card = 256 := by
  rw [card_univ, ← FinEnum.card_eq_fintypeCard]
  rfl

/-- Multiplication by a fixed byte sends more than half of all bytes to one value. -/
theorem exists_majority (x : Byte) : ∃ m, 256 < 2 * (univ.filter fun v => gfMul v x = m).card := by
  by_cases hx : x = 0
  · refine ⟨0, ?_⟩
    have hall : (univ.filter fun v => gfMul v x = 0) = univ := by
      rw [hx]
      simp
    rw [hall, card_bytes]
    decide
  · -- all logless bytes are the same factor
    obtain ⟨l, hl⟩ := Finset.card_pos.mp (show 0 < logless.card by rw [card_logless]; omega)
    refine ⟨gfMul l x, ?_⟩
    have hs : logless ⊆ univ.filter fun v => gfMul v x = gfMul l x := by
      intro v hv
      rw [Finset.mem_filter]
      obtain ⟨hv0, hvl⟩ := mem_logless.mp hv
      obtain ⟨hl0, hll⟩ := mem_logless.mp hl
      exact ⟨mem_univ v, gfMul_congr_left hv0 hl0 (hvl.trans hll.symm) x⟩
    have hle := Finset.card_le_card hs
    rw [card_logless] at hle
    omega

/-! ### Exactly when shares keep the key secret -/

/-- More than half of all coefficient choices put the same byte on top of the key byte. -/
theorem exists_likely_value (h : Accepted config) (x : Byte) (j : Fin n) :
    ∃ m, Fintype.card (Choice config n) <
      2 * (univ.filter fun c : Choice config n => gfMul (mask c x j) x = m).card := by
  have hp : 0 < (config.threshold - 1).toNat := by have := h.1; omega
  have hu : ∀ b, (univ.filter fun c : Choice config n => mask c x j = b).card =
      (univ.filter fun c : Choice config n => mask c x j = 0).card :=
    card_mask_eq hp x j
  obtain ⟨m, hm⟩ := exists_majority x
  have hall := card_filter_mem hu univ
  have hl := card_filter_mem hu (univ.filter fun v => gfMul v x = m)
  simp only [mem_univ, Finset.filter_true, card_univ, Finset.mem_filter, true_and] at hall hl
  have hf : 0 < (univ.filter fun c : Choice config n => mask c x j = 0).card := by
    by_contra hz
    have hc : 0 < Fintype.card (Choice config n) := Fintype.card_pos
    rw [hall, Nat.eq_zero_of_not_pos hz] at hc
    simp at hc
  refine ⟨m, ?_⟩
  rw [hl, hall, ← card_univ, card_bytes, ← Nat.mul_assoc]
  exact Nat.mul_lt_mul_of_pos_right hm hf

/-- Seeing one share is enough to tell two keys apart. -/
theorem eq_of_sameCounts (h : Accepted config) {positions : List Nat} {key key' : Fin n → Byte}
    (hs : SameCounts config positions key key') {x : Nat} (hmem : x ∈ positions) (h1 : 1 ≤ x)
    (hx : (x : Int) ≤ config.totalShares) : key = key' := by
  funext j
  obtain ⟨m, hm⟩ := exists_likely_value h (ofNat x) j
  obtain ⟨i, hi, hg⟩ := mem_iff_getElem.mp hmem
  -- the view shows the byte `m ^^^ key j` at position `x`
  let q : List (List Byte) → Prop := fun view => (view.getD i []).getD j 0 = m ^^^ key j
  have hco := card_filter_congr hs q
  have hv : ∀ (k : Fin n → Byte) (c : Choice config n), q (positions.map (shareData config k c)) ↔
        gfMul (mask c (ofNat x) j) (ofNat x) = m ^^^ key j ^^^ k j := by
    intro k c
    have hb : ((positions.map (shareData config k c)).getD i []).getD j 0 =
        gfMul (mask c (ofNat x) j) (ofNat x) ^^^ k j := by
      simp only [getD_eq_getElem?_getD, getElem?_map, getElem?_eq_getElem hi, hg,
        Option.map_some, Option.getD_some, shareData_eq h k c h1 hx]
      simp
    show _ = _ ↔ _
    rw [hb, ← UInt8.xor_left_inj (c := k j), xor_assoc, UInt8.xor_self, xor_zero]
  simp only [hv, xor_assoc, UInt8.xor_self, xor_zero] at hco
  by_contra hne
  have hmn : m ≠ m ^^^ (key j ^^^ key' j) := by
    intro heq
    have hz : (0 : Byte) = key j ^^^ key' j := by
      rw [← UInt8.xor_right_inj m, xor_zero]
      exact heq
    exact hne (UInt8.xor_eq_zero_iff.mp hz.symm)
  have hd : Disjoint
      (univ.filter fun c : Choice config n => gfMul (mask c (ofNat x) j) (ofNat x) = m)
      (univ.filter fun c : Choice config n =>
        gfMul (mask c (ofNat x) j) (ofNat x) = m ^^^ (key j ^^^ key' j)) := by
    rw [Finset.disjoint_filter]
    intro c _ hc hc'
    exact hmn (hc.symm.trans hc')
  have hle := Finset.card_le_univ (Finset.disjUnion _ _ hd)
  rw [Finset.card_disjUnion] at hle
  omega

/-- The share at position `x` does not depend on the random coefficients. -/
def FunctionOfKey (config : ShamirConfig) (key : Fin n → Byte) (x : Nat) : Prop :=
  ∀ c c' : Choice config n, shareData config key c x = shareData config key c' x

theorem ofNat_eq_zero_iff (x : Nat) : ofNat x = 0 ↔ 256 ∣ x := by
  rw [← UInt8.toNat_inj, Nat.dvd_iff_mod_eq_zero]
  rfl

/-- A share is the key itself at the positions where `byte(x)` wraps to zero. -/
theorem shareData_of_dvd (h : Accepted config) (key : Fin n → Byte) (c : Choice config n) {x : Nat}
    (h1 : 1 ≤ x) (hx : (x : Int) ≤ config.totalShares) (hd : 256 ∣ x) :
    shareData config key c x = ofFn key := by
  rw [shareData_eq h key c h1 hx, (ofNat_eq_zero_iff x).mpr hd]
  simp

theorem functionOfKey_iff (h : Accepted config) (key : Fin n → Byte) {x : Nat} (h1 : 1 ≤ x)
    (hx : (x : Int) ≤ config.totalShares) : FunctionOfKey config key x ↔ 256 ∣ x ∨ n = 0 := by
  constructor
  · intro hc
    by_contra hne
    rw [not_or] at hne
    obtain ⟨hd, hn⟩ := hne
    have hp : 0 < (config.threshold - 1).toNat := by have := h.1; omega
    let j : Fin n := ⟨0, Nat.pos_of_ne_zero hn⟩
    -- the zero coefficients, and the same with byte `j` of the first one set to `1`
    let c : Choice config n := fun _ _ => 0
    have hm : mask c (ofNat x) j = 0 := by
      have hz : (ofFn fun i => c i j) = replicate (config.threshold - 1).toNat 0 := by
        simp [c]
      rw [mask, hz, horner_replicate_zero]
    have heq := hc c (c.shift hp j 1)
    rw [shareData_eq h key _ h1 hx, shareData_eq h key _ h1 hx, ofFn_inj] at heq
    have hj := congrFun heq j
    rw [mask_shift, hm, UInt8.xor_left_inj] at hj
    rcases (gfMul_eq_zero_iff _ _).mp hj.symm with h0 | h0
    · exact absurd h0 (by decide)
    · exact hd ((ofNat_eq_zero_iff x).mp h0)
  · rintro (hd | rfl) c c'
    · rw [shareData_of_dvd h key c h1 hx hd, shareData_of_dvd h key c' h1 hx hd]
    · rw [shareData_eq h key c h1 hx, shareData_eq h key c' h1 hx]
      simp

/-- **What a coalition below the threshold learns**: its view separates any two different
keys unless it holds no share, and a share is a function of the key alone exactly at the
positions that are multiples of 256 (or for the empty key). -/
theorem sameCounts_iff (h : Accepted config) {positions : List Nat}
    (hpos : Coalition config positions) (key key' : Fin n → Byte) :
    (SameCounts config positions key key' ↔ positions = [] ∨ key = key') ∧
      ∀ x : Nat, 1 ≤ x → (x : Int) ≤ config.totalShares →
        (FunctionOfKey config key x ↔ 256 ∣ x ∨ n = 0) := by
  refine ⟨⟨fun hs => ?_, ?_⟩, fun x h1 hx => functionOfKey_iff h key h1 hx⟩
  · cases positions with
    | nil => exact .inl rfl
    | cons x rest =>
      have hx := hpos.mem x mem_cons_self
      exact .inr (eq_of_sameCounts h hs mem_cons_self hx.1 hx.2)
  · intro h view
    rcases h with rfl | rfl
    · simp only [map_nil]
    · rfl

def wideConfig : ShamirConfig := { totalShares := 256, threshold := 2, shareholderIDs := [] }

theorem sameCounts_iff_wide : Accepted wideConfig ∧ Coalition wideConfig [256] ∧
    ((SameCounts wideConfig [256] (fun _ : Fin 1 => 0) (fun _ => 1) ↔
        [256] = [] ∨ (fun _ : Fin 1 => (0 : Byte)) = fun _ => 1) ∧
      ∀ x : Nat, 1 ≤ x → (x : Int) ≤ wideConfig.totalShares →
        (FunctionOfKey wideConfig (fun _ : Fin 1 => 0) x ↔ 256 ∣ x ∨ 1 = 0)) :=
  have hp : Coalition wideConfig [256] := ⟨by decide, by decide, by decide⟩
  ⟨by decide, hp, sameCounts_iff (by decide) hp _ _⟩

/-- Position 256 of a two-of-256 split publishes the key, and position 1 alone already
separates the keys `00` and `01`. -/
theorem share_reveals_key : (∀ (key : Fin 1 → Byte) (c : Choice wideConfig 1),
        shareData wideConfig key c 256 = List.ofFn key) ∧
      ¬ SameCounts wideConfig [1] (fun _ : Fin 1 => 0) (fun _ => 1) := by
  have ha : Accepted wideConfig := by decide
  refine ⟨fun key c => shareData_of_dvd ha key c (by decide) (by decide) (by decide), ?_⟩
  intro hs
  have heq := eq_of_sameCounts ha hs (mem_singleton.mpr rfl) (by decide) (by decide)
  exact absurd (congrFun heq 0) (by decide)

end Bib.Shamir
