import Mathlib.Data.List.Basic

/-!
# Bib.Lib.Frame

**Length-prefixed frames in a stream of bytes.** A frame is a length in four bytes, the most
significant first, and that many bytes of content. The length of a longer content is taken
modulo `2³²`, as a conversion to a 32 bit word does.

`readFrame_frame` reads back a content within the limit. `readFrame_eq_none_or` says what becomes
of a content above it: it is refused, or its length has wrapped and only a part is taken.
-/

namespace Bib.Lib.Frame

open List

def header (n : Nat) : List UInt8 :=
  [UInt8.ofNat (n / 16777216), UInt8.ofNat (n / 65536), UInt8.ofNat (n / 256), UInt8.ofNat n]

def readHeader : List UInt8 → Option (Nat × List UInt8)
  | a :: b :: c :: d :: rest =>
    some (a.toNat * 16777216 + b.toNat * 65536 + c.toNat * 256 + d.toNat, rest)
  | _ => none

def frame (data : List UInt8) : List UInt8 := header data.length ++ data

/-- The content of a frame of at most `limit` bytes, and what follows it; `none` is a longer frame,
or the end of the stream before that of the frame. -/
def readFrame (limit : Nat) (stream : List UInt8) : Option (List UInt8 × List UInt8) :=
  match readHeader stream with
  | none => none
  | some (n, rest) =>
    if n > limit then none else if rest.length < n then none else some (rest.take n, rest.drop n)

@[simp] theorem length_header (n : Nat) : (header n).length = 4 := rfl

@[simp] theorem length_frame (data : List UInt8) : (frame data).length = 4 + data.length := by
  simp [frame]

theorem readHeader_header (n : Nat) (rest : List UInt8) :
    readHeader (header n ++ rest) = some (n % 4294967296, rest) := by
  simp only [header, readHeader, cons_append, nil_append, UInt8.toNat_ofNat',
    Option.some.injEq, Prod.mk.injEq, and_true]
  omega

variable {limit : Nat} {data : List UInt8}

theorem readFrame_frame (rest : List UInt8) (h : data.length ≤ limit) (hl : limit < 4294967296) :
    readFrame limit (frame data ++ rest) = some (data, rest) := by
  have hm : data.length % 4294967296 = data.length := Nat.mod_eq_of_lt (by omega)
  rw [readFrame, frame, append_assoc, readHeader_header, hm]
  simp [Nat.not_lt.mpr h]

/-- A frame above the limit is refused, or its length has wrapped and much of it is left. -/
theorem readFrame_eq_none_or (rest : List UInt8) (h : limit < data.length) :
    readFrame limit (frame data ++ rest) = none ∨
      ∃ n ≤ limit, readFrame limit (frame data ++ rest) = some (data.take n, data.drop n ++ rest) ∧
        n + 4 ≤ data.length := by
  rw [readFrame, frame, append_assoc, readHeader_header]
  dsimp only
  by_cases hm : data.length % 4294967296 > limit
  · exact .inl (if_pos hm)
  · have hle : data.length % 4294967296 ≤ data.length := Nat.mod_le _ _
    have hs : ¬ (data ++ rest).length < data.length % 4294967296 := by
      rw [length_append]
      omega
    refine .inr ⟨data.length % 4294967296, Nat.not_lt.mp hm, ?_, by omega⟩
    rw [if_neg hm, if_neg hs, take_append_of_le_length hle, drop_append_of_le_length hle]

/-! ### Reading from a connection -/

/-- `io.ReadFull` of `n` bytes from a connection on which the bytes come in fragments, with the fragments
that are left. A fragment may be taken in part; `none` is the end of the stream. -/
def readFull : Nat → List (List UInt8) → Option (List UInt8 × List (List UInt8))
  | 0, frags => some ([], frags)
  | _ + 1, [] => none
  | n + 1, frag :: frags =>
    if frag.length ≤ n + 1 then (readFull (n + 1 - frag.length) frags).map (Prod.map (frag ++ ·) id)
    else some (frag.take (n + 1), frag.drop (n + 1) :: frags)

/-- What is read does not depend on the fragments, and none that is left is empty. -/
theorem readFull_eq {n : Nat} {frags : List (List UInt8)} (hne : ∀ f ∈ frags, f ≠ [])
    (hn : n ≤ frags.flatten.length) : ∃ rest, readFull n frags = some (frags.flatten.take n, rest) ∧
      rest.flatten = frags.flatten.drop n ∧ ∀ f ∈ rest, f ≠ [] := by
  induction frags generalizing n with
  | nil =>
    obtain rfl : n = 0 := by simpa using hn
    exact ⟨[], rfl, rfl, hne⟩
  | cons frag frags ih =>
    cases n with
    | zero => exact ⟨frag :: frags, rfl, rfl, hne⟩
    | succ n =>
      obtain ⟨hfrag, hfrags⟩ := forall_mem_cons.mp hne
      rw [flatten_cons, length_append] at hn
      rw [flatten_cons, readFull]
      by_cases hle : frag.length ≤ n + 1
      · obtain ⟨rest, hr, hd, hrest⟩ := @ih (n + 1 - frag.length) hfrags (by omega)
        refine ⟨rest, ?_, ?_, hrest⟩
        · rw [if_pos hle, hr, take_append, take_of_length_le hle]
          rfl
        · rw [hd, drop_append, drop_of_length_le hle, nil_append]
      · have hlt : n + 1 ≤ frag.length := by omega
        refine ⟨frag.drop (n + 1) :: frags, ?_, ?_, forall_mem_cons.mpr ⟨?_, hfrags⟩⟩
        · rw [if_neg hle, take_append_of_le_length hlt]
        · rw [flatten_cons, drop_append_of_le_length hlt]
        · exact ne_nil_of_length_pos (by rw [length_drop]; omega)

end Bib.Lib.Frame
