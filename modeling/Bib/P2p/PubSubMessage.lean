import Bib.Lib.Json.Encoded
import Bib.Lib.Marks
import Bib.P2p.Compact
import Bib.P2p.Cut
import Bib.P2p.Message

/-!
# Bib.P2p.PubSubMessage

**The messages of the gossip network** (`PubSubMessage` in `internal/p2p/pubsub.go`) and the text that their
signature is over: the type, the name of the sender, the time and the payload, with colons between the first
three and nothing before the payload. It can be read in one way only if the type has no colon and the payload
does not begin with a digit (`eq_of_signedText_eq`).
-/

namespace Bib.P2p

open Bib.Domain Bib.Lib Bib.Lib.Json Bib.Lib.Calendar List
open Bib.Cluster (marshalRaw nullText)

structure PubSubMessage where
  (type senderPeerID : Bytes)
  timestamp : Stamp
  (signature payload : Option Bytes)

/-- `PubSubMessage{}`; the zero time is the beginning of the year 1. -/
def PubSubMessage.zero : PubSubMessage :=
  { type := [], senderPeerID := [], timestamp := ⟨-62135596800000000000, 0⟩, signature := none
    payload := none }

def PubSubMessage.members (m : PubSubMessage) (timestamp : Text) : List (Text × Text) :=
  [(quote (utf8 "type"), quote m.type), (quote (utf8 "sender_peer_id"), quote m.senderPeerID),
    (quote (utf8 "timestamp"), quoted timestamp), (quote (utf8 "signature"), bytesText m.signature),
    (quote (utf8 "payload"), marshalRaw m.payload)]

/-- `json.Marshal`; it fails if the payload is not valid or RFC 3339 has no text for the time. -/
def PubSubMessage.marshal (m : PubSubMessage) : Option Bytes :=
  if m.payload.all valid then
    (format m.timestamp).map fun timestamp => objectText (m.members timestamp)
  else none

def pubSubFields (other : Leniency) : List (StructField PubSubMessage) :=
  [stringField (utf8 "type") fun type m => { m with type },
    stringField (utf8 "sender_peer_id") fun senderPeerID m => { m with senderPeerID },
    timeField other (utf8 "timestamp") fun timestamp m => { m with timestamp },
    bytesField other (utf8 "signature") PubSubMessage.signature fun signature m => { m with signature },
    ⟨utf8 "payload", fun value m => some { m with payload := some value }⟩]

def PubSubMessage.unmarshal (other : Leniency) (text : Bytes) : Except DecodeError PubSubMessage :=
  Json.unmarshal (pubSubFields other) .zero text

/-- The text that is hashed and signed, from its parts. `%d` writes what `UnixNano` returns. -/
def signedText (type senderPeerID : Bytes) (unixNano : Int64) (payload : Bytes) : Bytes :=
  type ++ 0x3a :: (senderPeerID ++ 0x3a :: (intText unixNano.toInt ++ payload))

/-- `UnixNano`, which overflows outside the years 1678 to 2262. -/
def unixNano (t : Stamp) : Int64 := Int64.ofInt t.nanos

/-- `content` in `signMessage` and `verifyMessage`. -/
def PubSubMessage.content (m : PubSubMessage) : Bytes :=
  signedText m.type m.senderPeerID (unixNano m.timestamp) (m.payload.getD [])

/-! ### What is read back -/

def PubSubMessage.received (m : PubSubMessage) : PubSubMessage :=
  { m with
    type := toValid m.type, senderPeerID := toValid m.senderPeerID
    timestamp := m.timestamp.received, payload := some (marshalRaw m.payload) }

/-- The payload leaves a level of nesting to the message around it. -/
def PubSubMessage.fits (m : PubSubMessage) : Bool :=
  accepts (maxNestingDepth - 1) (marshalRaw m.payload)

section ReadBack

variable {m : PubSubMessage} {timestamp : Text}

theorem PubSubMessage.isMember_members {limit : Nat} (h : format m.timestamp = some timestamp)
    (hp : IsValue limit (marshalRaw m.payload)) : ∀ x ∈ m.members timestamp, IsMember limit x := by
  intro x hx
  simp only [PubSubMessage.members, mem_cons, not_mem_nil, or_false] at hx
  rcases hx with rfl | rfl | rfl | rfl | rfl
  · exact isMember_quote (isString_quote _).isValue
  · exact isMember_quote (isString_quote _).isValue
  · exact isMember_quote ((isValue_quoted_format h).mono (Nat.zero_le _))
  · exact isMember_quote ((isValue_bytesText _).mono (Nat.zero_le _))
  · exact isMember_quote hp

theorem PubSubMessage.foldlM_members (other : Leniency) (h : format m.timestamp = some timestamp) :
    (m.members timestamp).foldlM (setMember (pubSubFields other)) .zero = some m.received := by
  have hp : ∀ m', setMember (pubSubFields other) m' (quote (utf8 "payload"), marshalRaw m.payload) =
        some { m' with payload := some (marshalRaw m.payload) } := by
    intro m'
    rw [setMember_quote (utf8 "payload") (by decide) rfl]
  simp only [PubSubMessage.members, foldlM_cons, Option.bind_eq_bind, foldlM_nil]
  rw [setMember_string (utf8 "type") (by decide) rfl, Option.bind_some,
    setMember_string (utf8 "sender_peer_id") (by decide) rfl, Option.bind_some,
    setMember_time other (utf8 "timestamp") (by decide) rfl h, Option.bind_some,
    setMember_bytes other (utf8 "signature") (by decide) rfl, Option.bind_some, hp,
    Option.bind_some]
  rfl

/-- **A message that is written is read back**, if its payload is not nested too deep. -/
theorem PubSubMessage.unmarshal_marshal (other : Leniency) {body : Bytes}
    (h : m.marshal = some body) (hfi : m.fits) : unmarshal other body = .ok m.received := by
  unfold PubSubMessage.marshal at h
  split at h
  next hvalid =>
    obtain ⟨timestamp, hf, rfl⟩ := Option.map_eq_some_iff.mp h
    have hp := (isValue_payload hvalid).of_accepts hfi
    exact unmarshal_eq_ok (by decide) (isMember_members hf hp)
      (foldlM_members other hf)
  · cases h

theorem PubSubMessage.valid_payload {other : Leniency} {body : Bytes}
    (h : unmarshal other body = .ok m) : m.payload.all valid := by
  refine unmarshal_keeps (P := fun m => m.payload.all valid = true) ?_ h rfl
  intro field hf
  simp only [pubSubFields, mem_cons, not_mem_nil, or_false] at hf
  rcases hf with rfl | rfl | rfl | rfl | rfl
  · apply StructField.Keeps.keepsValid
    exact orNull_keeps _ _ fun _ _ hm => hm
  · apply StructField.Keeps.keepsValid
    exact orNull_keeps _ _ fun _ _ hm => hm
  · apply StructField.Keeps.keepsValid
    exact timeField_keeps other _ fun _ _ hm => hm
  · apply StructField.Keeps.keepsValid
    exact bytesField_keeps other _ _ fun _ _ hm => hm
  · intro value a a' hv hs _
    cases hs
    exact hv

end ReadBack

/-! ### The signed text is read in one way only -/

theorem isNumeral_intText (n : Int) : ∀ c ∈ intText n, isNumeral c := by
  intro c hc
  cases n with
  | ofNat n => simp [isNumeral, (all_isDigit_natText n c hc).1]
  | negSucc n =>
    rcases mem_cons.mp hc with rfl | hc
    · rfl
    · simp [isNumeral, (all_isDigit_natText _ c hc).1]

theorem intText_eq_cons (n : Int) : ∃ c digits, intText n = c :: digits ∧ ∀ d ∈ digits, isDigit d := by
  cases n with
  | ofNat n =>
    obtain ⟨c, digits, heq⟩ := exists_cons_of_ne_nil (natText_ne_nil n)
    refine ⟨c, digits, heq, fun d hd => (all_isDigit_natText n d ?_).1⟩
    rw [heq]
    exact mem_cons_of_mem _ hd
  | negSucc n => exact ⟨0x2d, natText (n + 1), rfl, fun d hd => (all_isDigit_natText _ d hd).1⟩

theorem intText_injective {n n' : Int64} (h : intText n.toInt = intText n'.toInt) : n = n' := by
  have hn := parseInt_intText n.le_toInt n.toInt_lt
  rw [h, parseInt_intText n'.le_toInt n'.toInt_lt] at hn
  exact (Int64.toInt_inj.mp (Option.some.inj hn)).symm

theorem isDigit_of_intText_append {n n' : Int} {more : Text} (h : intText n' = intText n ++ more) :
    ∀ d ∈ more, isDigit d := by
  obtain ⟨c', digits', heq', hdi'⟩ := intText_eq_cons n'
  obtain ⟨c, digits, heq, -⟩ := intText_eq_cons n
  rw [heq', heq] at h
  intro d hd
  refine hdi' d ?_
  rw [(cons.inj h).2]
  exact mem_append_right _ hd

/-- A payload that a number can stand before: it is a JSON value that begins neither with a digit
nor with white space. -/
structure Separate (payload : Bytes) : Prop where
  valid : Json.valid payload = true
  head : ∀ c ∈ payload.head?, isDigit c = false ∧ isSpace c = false

section Reading

variable {type type' sender sender' payload payload' : Bytes} {n n' : Int64}

theorem number_eq (hp : Separate payload) (hp' : payload' = [] ∨ valid payload')
    (h : intText n.toInt ++ payload = intText n'.toInt ++ payload') :
    n' = n ∧ payload' = payload := by
  rcases append_eq_append_iff.mp h with ⟨more, hnu, hrest⟩ | ⟨more, hnu, hrest⟩
  · have hm := isDigit_of_intText_append hnu
    cases more with
    | nil =>
      rw [append_nil] at hnu
      exact ⟨intText_injective hnu, hrest.symm⟩
    | cons d more =>
      -- the payload would begin with a digit
      have hd := (hp.head d (by rw [hrest]; rfl)).1
      rw [hm d mem_cons_self] at hd
      cases hd
  · have hm := isDigit_of_intText_append hnu
    cases more with
    | nil =>
      rw [append_nil] at hnu
      exact ⟨(intText_injective hnu).symm, hrest⟩
    | cons d more =>
      -- digits before a value are not part of it
      have hr : accepts maxNestingDepth (d :: (more ++ payload)) = false :=
        not_accepts_digits (hm d mem_cons_self)
          (fun c hc => hm c (mem_cons_of_mem _ hc)) hp.valid hp.head
      rcases hp' with hn | hvalid
      · rw [hn] at hrest
        cases hrest
      · rw [hrest] at hvalid
        rw [valid, cons_append, hr] at hvalid
        cases hvalid

/-- The name of a sender: it has neither a colon nor a quotation mark, or else a zero byte. -/
def NameText (sender : Bytes) : Prop := 0 ∈ sender ∨ 0x3a ∉ sender ∧ 0x22 ∉ sender

theorem zero_not_mem_tail (n : Int64) (hp : valid payload) : 0 ∉ intText n.toInt ++ payload := by
  intro hmem
  rcases mem_append.mp hmem with hn | hmem
  · have := isNumeral_intText n.toInt 0 hn
    cases this
  · rw [valid, accepts_of_zero_mem hmem] at hp
    cases hp

/-- Every way to read the signed text of a plain message gives its parts: the type of the second
reading may have colons, but then the payload of the first would have to be cut at one. -/
theorem eq_of_signedText_eq (ht : 0x3a ∉ type) (hs : 0x3a ∉ sender ∧ 0 ∉ sender)
    (hp : Separate payload) (hs' : NameText sender') (hp' : payload' = [] ∨ valid payload')
    (h : signedText type sender n payload = signedText type' sender' n' payload') :
    type' = type ∧ sender' = sender ∧ n' = n ∧ payload' = payload := by
  have hz := zero_not_mem_tail n hp.valid
  have hc : 0x3a ∉ intText n.toInt := fun hmem => by cases isNumeral_intText _ _ hmem
  have hna : ∀ more, intText n.toInt ++ payload = more → sender' <:+: more →
      0x3a ∉ sender' ∧ 0x22 ∉ sender' := by
    intro more hm hi
    refine hs'.resolve_left fun hmem => hz ?_
    rw [hm]
    exact hi.subset hmem
  rcases append_mark_eq ht h with ⟨rfl, hrest⟩ | ⟨more, -, hrest⟩
  · rcases append_mark_eq hs.1 hrest.symm with ⟨rfl, hnu⟩ | ⟨more, hl, hnu⟩
    · exact ⟨rfl, rfl, number_eq hp hp' hnu.symm⟩
    · -- the name of the other sender has a colon, so a zero byte, which would be in the payload
      rcases hs' with hmem | ⟨hnone, -⟩
      · rw [hl, mem_append, mem_cons] at hmem
        rcases hmem with hmem | hmem | hmem
        · exact absurd hmem hs.2
        · cases hmem
        · exact absurd (by rw [hnu]; exact mem_append_left _ hmem) hz
      · exact absurd (by simp [hl]) hnone
  · rcases append_mark_eq hs.1 hrest with ⟨rfl, hnu⟩ | ⟨more, -, hnu⟩
    · -- one colon of the payload ends the name of the other sender
      obtain ⟨front, hf, hcu⟩ := eq_append_of_mark hc hnu.symm
      have hq := quote_mem_of_colon (hcu ▸ hp.valid)
      have hother := hna _ hnu.symm (prefix_append _ _).isInfix
      rw [hf] at hother
      exact absurd (mem_append_right _ hq) hother.2
    · -- two colons of the payload are around it
      obtain ⟨front, -, hcu⟩ := eq_append_of_mark hc hnu
      have hother := hna _ hnu ⟨more ++ [0x3a], 0x3a :: (intText n'.toInt ++ payload'), by simp⟩
      have hvalid := hp.valid
      rw [hcu] at hvalid
      have hleft : payload' ≠ [] ∧ accepts maxNestingDepth payload' = false :=
        not_accepts_of_colons hother.2 (isNumeral_intText n'.toInt) hvalid
      rcases hp' with hn | hv'
      · exact absurd hn hleft.1
      · rw [valid, hleft.2] at hv'
        cases hv'

end Reading
end Bib.P2p
