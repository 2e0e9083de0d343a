import Bib.P2p.RawMessage

/-!
# Bib.P2p.Compact

**The raw messages that marshalling leaves alone.** A valid message comes through
`json.Marshal` unchanged exactly if it is compact: no white space outside its string
literals and nothing that HTML escaping replaces (`marshalRaw_eq_self_iff`). What
`json.Marshal` itself writes is compact, so it can be the payload of another message
(`marshalRaw_of_isValue`).
-/

namespace Bib.P2p

open Bib.Lib.Json Bib.Domain List
open Bib.Cluster (dropSpaces escapeHTML marshalRaw)

variable {limit : Nat} {s s' t : Scan} {c : UInt8}

/-! ### Messages that marshalling leaves alone -/

/-- White space outside string literals. -/
def hasSpaces : (inString escaped : Bool) → Bytes → Bool
  | _, _, [] => false
  | false, _, c :: rest => isSpace c || hasSpaces (c = 0x22) false rest
  | true, true, _ :: rest => hasSpaces true false rest
  | true, false, c :: rest => hasSpaces (c ≠ 0x22) (c = 0x5c) rest

/-- One of `<`, `>`, `&`, U+2028 and U+2029. -/
def hasHtml : Bytes → Bool
  | 0xe2 :: 0x80 :: 0xa8 :: _ => true
  | 0xe2 :: 0x80 :: 0xa9 :: _ => true
  | 0x3c :: _ => true
  | 0x3e :: _ => true
  | 0x26 :: _ => true
  | _ :: rest => hasHtml rest
  | [] => false

/-- The raw message has no white space outside literals and nothing to escape. -/
def isCompact (raw : Bytes) : Bool := !hasSpaces false false raw && !hasHtml raw

theorem length_dropSpaces_le (inString escaped : Bool) (text : Bytes) :
    (dropSpaces inString escaped text).length ≤ text.length := by
  fun_induction dropSpaces inString escaped text with
  | case1 => exact Nat.le_refl _
  | _ =>
    simp only [length_cons]
    omega

theorem dropSpaces_eq_self_iff (inString escaped : Bool) (text : Bytes) :
    dropSpaces inString escaped text = text ↔
      hasSpaces inString escaped text = false := by
  fun_induction dropSpaces inString escaped text with
  | case1 => simp [hasSpaces]
  | case2 escaped c rest hs ih =>
    rw [isSpace_eq] at hs
    simp only [hasSpaces, hs, Bool.true_or, Bool.true_eq_false, iff_false]
    intro heq
    have hlen := length_dropSpaces_le false false rest
    have := congrArg length heq
    simp only [length_cons] at this
    omega
  | case3 escaped c rest hs ih =>
    rw [isSpace_eq] at hs
    simp [hasSpaces, hs, ih]
  | case4 c rest ih => simp only [hasSpaces, cons.injEq, true_and, ih]
  | case5 c rest ih => simp only [hasSpaces, cons.injEq, true_and, ih]

theorem length_le_escapeHTML (text : Bytes) : text.length ≤ (escapeHTML text).length := by
  fun_induction escapeHTML text with
  | case1 rest ih | case2 rest ih | case3 rest ih | case4 rest ih | case5 rest ih =>
    simp only [Bib.Cluster.unicodeEscape, length_append, length_cons, length_nil]
    omega
  | case6 c rest h₁ h₂ h₃ h₄ h₅ ih =>
    simp only [length_cons]
    omega
  | case7 => exact Nat.le_refl _

theorem escapeHTML_eq_self_iff (text : Bytes) : escapeHTML text = text ↔ hasHtml text = false := by
  fun_induction escapeHTML text with
  | case1 rest ih | case2 rest ih | case3 rest ih | case4 rest ih | case5 rest ih =>
    simp only [hasHtml, Bool.true_eq_false, iff_false]
    intro heq
    have := congrArg length heq
    have hlen := length_le_escapeHTML rest
    simp only [Bib.Cluster.unicodeEscape, length_append, length_cons, length_nil] at this
    omega
  | case6 c rest h₁ h₂ h₃ h₄ h₅ ih =>
    simp only [cons.injEq, true_and, ih]
    rw [hasHtml]
    all_goals assumption
  | case7 => simp [hasHtml]

theorem inLiteral_of_tracks (h : Tracks false false s t) : inLiteral s.state = false := by
  cases h with
  | same state stack hl => exact hl
  | _ => rfl

variable {text bytes : Bytes} {members : List (Text × Text)}

theorem hasSpaces_of_tightRun {inString escaped : Bool}
    (htr : Tracks inString escaped s s) (h : tightRun limit s text = some s') :
    hasSpaces inString escaped text = false := by
  induction text generalizing inString escaped s with
  | nil => cases inString <;> cases escaped <;> rfl
  | cons c rest ih =>
    simp only [tightRun, Option.bind_eq_some_iff] at h
    obtain ⟨s₁, ht, hrest⟩ := h
    obtain ⟨hsp, hstep⟩ := tightStep_eq_some.mp ht
    cases inString with
    | false =>
      cases escaped with
      | false =>
        have hns : isSpace c = false := by
          rw [Bool.eq_false_iff]
          intro hs
          have hl := inLiteral_of_tracks htr
          rw [hsp hs] at hl
          cases hl
        rw [hasSpaces, hns]
        exact ih (tracks_byte htr hns hstep).2 hrest
      | true => cases htr
    | true =>
      cases htr with
      | escape stack => exact ih (tracks_escape hstep).2 hrest
      | literal state stack hl hne => exact ih (tracks_literal hl hne hstep).2 hrest

/-- **Marshalling leaves a valid raw message alone exactly if it is compact.** -/
theorem marshalRaw_eq_self_iff {raw : Bytes} (h : accepts limit raw) :
    marshalRaw (some raw) = raw ↔ isCompact raw := by
  have hi : isCompact raw ↔ hasSpaces false false raw = false ∧ hasHtml raw = false := by
    simp [isCompact]
  rw [hi, ← dropSpaces_eq_self_iff, ← escapeHTML_eq_self_iff]
  refine ⟨?_, ?_⟩
  · intro heq
    -- the marshalled text is read tightly, hence so is the message itself
    obtain ⟨s, hr, -⟩ := isValue_marshalRaw h
    rw [heq] at hr
    have hd : dropSpaces false false raw = raw :=
      (dropSpaces_eq_self_iff false false raw).mpr
        (hasSpaces_of_tightRun (.same .beginValue [] rfl) hr)
    rw [marshalRaw, hd] at heq
    exact ⟨hd, heq⟩
  · intro hs
    rw [marshalRaw, hs.1, hs.2]

/-! ### What is marshalled is compact -/

/-- The text has nothing to escape, whatever comes after it. -/
def HtmlFree (text : Bytes) : Prop := ∀ rest, hasHtml (text ++ rest) = hasHtml rest

theorem hasHtml_cons (hc : isHtml c = false) (rest : Bytes) : hasHtml (c :: rest) = hasHtml rest := by
  rw [hasHtml]
  all_goals
    intros
    subst_vars
    cases hc

theorem HtmlFree.append {a b : Bytes} (ha : HtmlFree a) (hb : HtmlFree b) : HtmlFree (a ++ b) := by
  intro rest
  rw [append_assoc, ha, hb]

theorem htmlFree_of_forall (h : ∀ b ∈ text, isHtml b = false) : HtmlFree text := by
  intro rest
  induction text with
  | nil => rfl
  | cons c text ih => rw [cons_append, hasHtml_cons (h c (by simp)), ih fun b hb => h b (by simp [hb])]

theorem htmlFree_flatMap {A : Type} {f : A → Bytes} {as : List A} (h : ∀ a ∈ as, HtmlFree (f a)) :
    HtmlFree (as.flatMap f) := by
  induction as with
  | nil => exact fun _ => rfl
  | cons a as ih => exact (h a (by simp)).append (ih fun a ha => h a (by simp [ha]))

theorem not_isHtml_of_le (hle : 0x80 ≤ c) (hne : c ≠ 0xe2) : isHtml c = false := by
  simp only [isHtml, Bool.or_eq_false_iff, decide_eq_false_iff_not]
  simp only [UInt8.le_iff_toNat_le, ← UInt8.toNat_inj, ne_eq, UInt8.reduceToNat] at hle hne ⊢
  omega

theorem multiByte_e2 (h : multiByte bytes) :
    (∀ b ∈ bytes, b ≠ 0xe2) ∨ ∃ b c, bytes = [0xe2, b, c] ∧ b ≠ 0xe2 ∧ c ≠ 0xe2 := by
  rcases multiByte_shape h with ⟨a, b, rfl⟩ | ⟨a, b, c, rfl⟩ | ⟨a, b, c, d, rfl⟩
  · refine .inl ?_
    simp only [multiByte, isTail, Bool.and_eq_true, decide_eq_true_eq] at h
    simp only [mem_cons, not_mem_nil, or_false, forall_eq_or_imp, forall_eq]
    simp only [UInt8.le_iff_toNat_le, ← UInt8.toNat_inj, ne_eq, UInt8.reduceToNat] at h ⊢
    omega
  · simp only [multiByte, isTail, Bool.and_eq_true, Bool.or_eq_true, decide_eq_true_eq] at h
    have ht : b ≠ 0xe2 ∧ c ≠ 0xe2 := by
      simp only [UInt8.le_iff_toNat_le, ← UInt8.toNat_inj, ne_eq, UInt8.reduceToNat] at h ⊢
      omega
    by_cases ha : a = 0xe2
    · exact .inr ⟨b, c, by rw [ha], ht⟩
    · refine .inl ?_
      simp [ha, ht]
  · refine .inl ?_
    simp only [multiByte, isTail, Bool.and_eq_true, Bool.or_eq_true, decide_eq_true_eq] at h
    simp only [mem_cons, not_mem_nil, or_false, forall_eq_or_imp, forall_eq]
    simp only [UInt8.le_iff_toNat_le, ← UInt8.toNat_inj, ne_eq, UInt8.reduceToNat] at h ⊢
    omega

theorem htmlFree_multi (h : multiByte bytes) (h₁ : bytes ≠ [0xe2, 0x80, 0xa8])
    (h₂ : bytes ≠ [0xe2, 0x80, 0xa9]) : HtmlFree bytes := by
  have hle := le_of_mem_multiByte h
  rcases multiByte_e2 h with hne | ⟨b, c, rfl, hb, hc⟩
  · exact htmlFree_of_forall fun b hb => not_isHtml_of_le (hle b hb) (hne b hb)
  · have hb := not_isHtml_of_le (hle b (by simp)) hb
    have hc := not_isHtml_of_le (hle c (by simp)) hc
    have ht : HtmlFree [b, c] := htmlFree_of_forall (by simp [hb, hc])
    intro rest
    rw [← ht rest]
    show hasHtml (0xe2 :: b :: c :: rest) = hasHtml (b :: c :: rest)
    rw [hasHtml]
    all_goals
      intros
      simp_all

theorem not_isHtml_hexDigit : ∀ d < 16, isHtml (hexDigit d) = false := by decide

theorem htmlFree_unicodeEscape (n : Nat) : HtmlFree (unicodeEscape n) := by
  have hd : ∀ k, isHtml (hexDigit (k % 16)) = false :=
    fun k => not_isHtml_hexDigit _ (Nat.mod_lt k (by decide))
  refine htmlFree_of_forall ?_
  simp only [unicodeEscape, mem_cons, not_mem_nil, or_false]
  rintro b (rfl | rfl | rfl | rfl | rfl | rfl)
  · rfl
  · rfl
  all_goals exact hd _

theorem htmlFree_quoteRune (r : Rune) : HtmlFree (quoteRune r) := by
  cases r with
  | bad c => exact htmlFree_unicodeEscape _
  | multi bytes h =>
    simp only [quoteRune]
    split_ifs with h₁ h₂
    · exact htmlFree_unicodeEscape _
    · exact htmlFree_unicodeEscape _
    · exact htmlFree_multi h h₁ h₂
  | ascii c hc =>
    simp only [quoteRune]
    cases hl : escapeLetter c with
    | some letter =>
      obtain ⟨-, -, -, he⟩ := escapeLetter_spec hl
      refine htmlFree_of_forall fun b hb => ?_
      simp only [mem_cons, not_mem_nil, or_false] at hb
      rcases hb with rfl | rfl
      · rfl
      · simp only [isEscape, Bool.or_eq_true, decide_eq_true_eq] at he
        rcases he with ((((((rfl | rfl) | rfl) | rfl) | rfl) | rfl) | rfl) | rfl <;> rfl
    | none =>
      split_ifs with hu
      · exact htmlFree_unicodeEscape _
      · have hh : isHtml c = false := by
          simp only [Bool.or_eq_true, decide_eq_true_eq, not_or] at hu
          have hne : c ≠ 0xe2 := by
            intro heq
            subst heq
            exact absurd hc (by decide)
          simp [isHtml, hu, hne]
        exact htmlFree_of_forall (by simpa using hh)

theorem htmlFree_quote (text : Bytes) : HtmlFree (quote text) := by
  have hq : HtmlFree [0x22] := htmlFree_of_forall (by simp [isHtml])
  exact hq.append ((htmlFree_flatMap fun r _ => htmlFree_quoteRune r).append hq)

theorem not_isHtml_of_isDigit (h : isDigit c) : isHtml c = false := by
  rw [Bool.eq_false_iff]
  intro hh
  have hc : c = 0xe2 ∨ c = 0x3c ∨ c = 0x3e ∨ c = 0x26 := by
    simpa [isHtml, or_assoc] using hh
  rcases hc with rfl | rfl | rfl | rfl <;> cases h

theorem htmlFree_natText (n : Nat) : HtmlFree (natText n) :=
  htmlFree_of_forall fun c hc => not_isHtml_of_isDigit (all_isDigit_natText n c hc).1

theorem htmlFree_intText (n : Int) : HtmlFree (intText n) := by
  cases n with
  | ofNat n => exact htmlFree_natText n
  | negSucc n =>
    have hm : HtmlFree [0x2d] := htmlFree_of_forall (by simp [isHtml])
    exact hm.append (htmlFree_natText (n + 1))

theorem htmlFree_membersText (h : ∀ m ∈ members, HtmlFree m.1 ∧ HtmlFree m.2) : HtmlFree (membersText members) := by
  have hc : HtmlFree [0x3a] := htmlFree_of_forall (by simp [isHtml])
  have hco : HtmlFree [0x2c] := htmlFree_of_forall (by simp [isHtml])
  induction members with
  | nil => exact fun _ => rfl
  | cons m members ih =>
    obtain ⟨key, value⟩ := m
    obtain ⟨hk, hv⟩ := h (key, value) (by simp)
    have ht := ih fun m hm => h m (by simp [hm])
    cases members with
    | nil => exact hk.append (hc.append hv)
    | cons m' members => exact hk.append (hc.append (hv.append (hco.append ht)))

theorem htmlFree_objectText (h : ∀ m ∈ members, HtmlFree m.1 ∧ HtmlFree m.2) : HtmlFree (objectText members) := by
  have ho : HtmlFree [0x7b] := htmlFree_of_forall (by simp [isHtml])
  have hc : HtmlFree [0x7d] := htmlFree_of_forall (by simp [isHtml])
  exact ho.append ((htmlFree_membersText h).append hc)

/-- **A value with nothing to escape is marshalled as it is.** -/
theorem marshalRaw_of_isValue (h : IsValue limit text) (hf : HtmlFree text) : marshalRaw (some text) = text := by
  refine (marshalRaw_eq_self_iff h.accepts).mpr ?_
  obtain ⟨s, hr, -⟩ := h
  have hh := hf []
  rw [append_nil] at hh
  simp [isCompact, hasSpaces_of_tightRun (.same .beginValue [] rfl) hr, hh, hasHtml]

end Bib.P2p
