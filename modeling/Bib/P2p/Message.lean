import Bib.P2p.RawMessage

/-!
# Bib.P2p.Message

**The protocol message and its JSON form** (`internal/p2p/protocol.go`, lines 78 to 92). What is unmarshalled
from a marshalled message is `Message.received` of it: ill-formed UTF-8 is replaced, and the payload compacted
and escaped. The envelope adds one level of nesting, so that a payload at the limit of `encoding/json` is
written but not read (`unmarshal_marshal`).
-/

namespace Bib.P2p

open Bib.Lib Bib.Lib.Json Bib.Domain List
open Bib.Cluster (marshalRaw nullText)

structure ErrorPayload where
  code : Int64
  message : Bytes
  details : KeyMap Bytes Bytes
  deriving DecidableEq

structure Message where
  (type requestID : Bytes)
  payload : Option Bytes
  error : Option ErrorPayload
  deriving DecidableEq

def ErrorPayload.zero : ErrorPayload := ⟨0, [], Table.empty⟩

def Message.zero : Message := ⟨[], [], none, none⟩

/-! ### `json.Marshal` -/

/-- The members of a `map[string]string`, in the order of their keys. -/
def mapMembers (details : KeyMap Bytes Bytes) : List (Text × Text) :=
  (details.rows.mergeSort fun a b => a.1 ≤ b.1).map fun row => (quote row.1, quote row.2)

/-- The members of an `ErrorPayload`; an empty map is omitted. -/
def ErrorPayload.members (e : ErrorPayload) : List (Text × Text) :=
  (quote (utf8 "code"), intText e.code.toInt) :: (quote (utf8 "message"), quote e.message) ::
    if e.details.rows = [] then []
    else [(quote (utf8 "details"), objectText (mapMembers e.details))]

/-- The members of a `Message`; a nil error is omitted. -/
def Message.members (m : Message) : List (Text × Text) :=
  (quote (utf8 "type"), quote m.type) :: (quote (utf8 "request_id"), quote m.requestID) ::
    (quote (utf8 "payload"), marshalRaw m.payload) ::
    match m.error with
    | none => []
    | some e => [(quote (utf8 "error"), objectText e.members)]

/-- `json.Marshal`; a raw message that is not valid is an error. -/
def Message.marshal (m : Message) : Option Bytes :=
  if m.payload.all valid then some (objectText m.members) else none

/-! ### `json.Unmarshal` -/

def setDetail (details : KeyMap Bytes Bytes) (member : Text × Text) : Option (KeyMap Bytes Bytes) :=
  (unquote member.1).bind fun key =>
    if isNull member.2 then some (details.set key [])
    else (unquote member.2).map fun value => details.set key value

/-- The field `Details`; `null` is the nil map. -/
def setDetails (value : Text) (e : ErrorPayload) : Option ErrorPayload :=
  if isNull value then some { e with details := .empty }
  else (objectMembers maxNestingDepth value).bind fun members =>
    (members.foldlM setDetail e.details).map fun details => { e with details }

def errorFields : List (StructField ErrorPayload) :=
  [intField (utf8 "code") fun n e => { e with code := Int64.ofInt n },
    stringField (utf8 "message") fun message e => { e with message },
    ⟨utf8 "details", setDetails⟩]

/-- The field `Error`: `null` is the nil pointer, an object goes to what it points to. -/
def setError (value : Text) (m : Message) : Option Message :=
  if isNull value then some { m with error := none }
  else (decodeStruct errorFields (m.error.getD .zero) value).map fun e => { m with error := some e }

def messageFields : List (StructField Message) :=
  [stringField (utf8 "type") fun type m => { m with type },
    stringField (utf8 "request_id") fun requestID m => { m with requestID },
    ⟨utf8 "payload", fun value m => some { m with payload := some value }⟩,
    ⟨utf8 "error", setError⟩]

/-- `json.Unmarshal` into a new `Message`. -/
def Message.unmarshal (text : Bytes) : Except DecodeError Message :=
  Json.unmarshal messageFields .zero text

/-! ### What is read back -/

def receivedDetails (details : KeyMap Bytes Bytes) : KeyMap Bytes Bytes :=
  (details.rows.mergeSort fun a b => a.1 ≤ b.1).foldl
    (fun read row => read.set (toValid row.1) (toValid row.2)) Table.empty

def ErrorPayload.received (e : ErrorPayload) : ErrorPayload :=
  { code := e.code, message := toValid e.message, details := receivedDetails e.details }

def Message.received (m : Message) : Message :=
  { type := toValid m.type, requestID := toValid m.requestID
    payload := some (marshalRaw m.payload), error := m.error.map ErrorPayload.received }

theorem foldlM_setDetail (rows : List (Bytes × Bytes)) (details : KeyMap Bytes Bytes) :
    (rows.map fun row => (quote row.1, quote row.2)).foldlM setDetail details =
      some (rows.foldl (fun read row => read.set (toValid row.1) (toValid row.2)) details) := by
  induction rows generalizing details with
  | nil => rfl
  | cons row rows ih =>
    have hstep : setDetail details (quote row.1, quote row.2) =
        some (details.set (toValid row.1) (toValid row.2)) := by
      simp [setDetail, unquote_quote, isNull_quote]
    simp only [map_cons, foldlM_cons, hstep, foldl_cons]
    exact ih _

theorem isMember_mapMembers (limit : Nat) (details : KeyMap Bytes Bytes) :
    ∀ m ∈ mapMembers details, IsMember limit m := by
  intro m hm
  obtain ⟨row, -, rfl⟩ := mem_map.mp hm
  exact isMember_quote (isString_quote row.2).isValue

theorem setDetails_objectText (details : KeyMap Bytes Bytes) (e : ErrorPayload)
    (he : e.details = Table.empty) : setDetails (objectText (mapMembers details)) e =
      some { e with details := receivedDetails details } := by
  have hm := objectMembers_objectText (isMember_mapMembers maxNestingDepth details)
  simp only [setDetails, isNull_objectText, hm, Bool.false_eq_true, if_false, Option.bind_some, he]
  rw [mapMembers, foldlM_setDetail]
  rfl

theorem ErrorPayload.isMember_members (e : ErrorPayload) : ∀ m ∈ e.members, IsMember 1 m := by
  intro m hm
  simp only [ErrorPayload.members, mem_cons] at hm
  rcases hm with rfl | rfl | hm
  · exact isMember_quote (isValue_intText 1 _)
  · exact isMember_quote (isString_quote _).isValue
  · split at hm
    · cases hm
    · rw [mem_singleton] at hm
      subst hm
      exact isMember_quote (isValue_objectText (isMember_mapMembers 0 e.details))

theorem ErrorPayload.decode_members (e : ErrorPayload) :
    decodeStruct errorFields .zero (objectText e.members) = some e.received := by
  have hme : ∀ m ∈ e.members, IsMember maxNestingDepth m := fun m hm =>
    ⟨(e.isMember_members m hm).1, (e.isMember_members m hm).2.mono (by decide)⟩
  have hc : ∀ e', setMember errorFields e' (quote (utf8 "code"), intText e.code.toInt) =
      some { e' with code := e.code } := by
    intro e'
    rw [setMember_int (utf8 "code") (by decide) rfl, Int64.ofInt_toInt]
  have hms : ∀ e', setMember errorFields e' (quote (utf8 "message"), quote e.message) =
      some { e' with message := toValid e.message } := by
    intro e'
    rw [setMember_string (utf8 "message") (by decide) rfl]
  have hd : ∀ e' : ErrorPayload, e'.details = Table.empty →
      setMember errorFields e' (quote (utf8 "details"), objectText (mapMembers e.details)) =
        some { e' with details := receivedDetails e.details } := by
    intro e' he'
    exact setDetails_objectText e.details e' he'
  rw [decodeStruct_objectText hme, ErrorPayload.members, foldlM_cons, hc]
  simp only [Option.bind_eq_bind, Option.bind_some, foldlM_cons, hms]
  split
  next hn =>
    rw [ErrorPayload.received, receivedDetails, hn, mergeSort_nil]
    rfl
  · rw [foldlM_cons, hd _ rfl]
    rfl

theorem Message.setError_members (m : Message) (hm : m.error = none) (e : ErrorPayload) :
    setMember messageFields m (quote (utf8 "error"), objectText e.members) =
      some { m with error := some e.received } := by
  rw [setMember_quote (utf8 "error") (by decide) rfl]
  simp [setError, isNull_objectText, hm, e.decode_members]

theorem Message.foldlM_members (m : Message) :
    m.members.foldlM (setMember messageFields) .zero = some m.received := by
  have ht : ∀ m', setMember messageFields m' (quote (utf8 "type"), quote m.type) =
      some { m' with type := toValid m.type } := by
    intro m'
    rw [setMember_string (utf8 "type") (by decide) rfl]
  have hr : ∀ m', setMember messageFields m' (quote (utf8 "request_id"), quote m.requestID) =
      some { m' with requestID := toValid m.requestID } := by
    intro m'
    rw [setMember_string (utf8 "request_id") (by decide) rfl]
  have hp : ∀ m', setMember messageFields m' (quote (utf8 "payload"), marshalRaw m.payload) =
      some { m' with payload := some (marshalRaw m.payload) } := by
    intro m'
    rw [setMember_quote (utf8 "payload") (by decide) rfl]
  simp only [Message.members, foldlM_cons, ht, hr, hp, Option.bind_eq_bind, Option.bind_some]
  cases he : m.error with
  | none => simp [Message.received, he, Message.zero]
  | some e =>
    rw [foldlM_cons, Message.setError_members _ rfl]
    simp [Message.received, he]

/-! ### Nesting -/

theorem isValue_payload {payload : Option Bytes} (h : payload.all valid) :
    IsValue maxNestingDepth (marshalRaw payload) := by
  cases payload with
  | none => exact ⟨⟨.endValue, []⟩, rfl, rfl⟩
  | some raw => exact isValue_marshalRaw h

theorem Message.isMember_members {limit : Nat} (hl : 2 ≤ limit) {m : Message}
    (h : IsValue limit (marshalRaw m.payload)) : ∀ x ∈ m.members, IsMember limit x := by
  intro x hx
  simp only [Message.members, mem_cons] at hx
  rcases hx with rfl | rfl | rfl | hx
  · exact isMember_quote (isString_quote _).isValue
  · exact isMember_quote (isString_quote _).isValue
  · exact isMember_quote h
  · cases he : m.error with
    | none =>
      rw [he] at hx
      cases hx
    | some e =>
      rw [he, mem_singleton] at hx
      subst hx
      exact isMember_quote ((isValue_objectText e.isMember_members).mono hl)

variable {m : Message} {body : Bytes}

theorem Message.marshal_eq_some (h : m.marshal = some body) : m.payload.all valid ∧ body = objectText m.members := by
  unfold Message.marshal at h
  split at h
  next hvalid => exact ⟨hvalid, (Option.some.inj h).symm⟩
  · cases h

theorem Message.isValue_marshal (h : m.marshal = some body) : IsValue (maxNestingDepth + 1) body := by
  obtain ⟨hvalid, rfl⟩ := Message.marshal_eq_some h
  exact isValue_objectText (Message.isMember_members (by decide) (isValue_payload hvalid))

/-- The payload leaves a level of nesting to the envelope. -/
def Message.fits (m : Message) : Bool := accepts (maxNestingDepth - 1) (marshalRaw m.payload)

/-- **Reading a written message**: it fails if the payload is at the limit of nesting, and
gives the message as received otherwise. -/
theorem Message.unmarshal_marshal (h : m.marshal = some body) :
    Message.unmarshal body = if m.fits then .ok m.received else .error .invalid := by
  obtain ⟨hvalid, rfl⟩ := Message.marshal_eq_some h
  have hp := isValue_payload hvalid
  by_cases hf : m.fits
  · rw [if_pos hf]
    exact unmarshal_eq_ok (by decide)
      (Message.isMember_members (by decide) (hp.of_accepts hf)) m.foldlM_members
  · rw [if_neg hf]
    have hr : valid (objectText m.members) = false := by
      rw [Bool.eq_false_iff]
      intro ha
      have hm : ∀ x ∈ m.members, IsValue (maxNestingDepth - 1) x.2 :=
        isValue_of_accepts_objectText (Message.isMember_members (by decide) hp) ha
      exact hf (hm (quote (utf8 "payload"), marshalRaw m.payload)
        (by simp [Message.members])).accepts
    simp [Message.unmarshal, Json.unmarshal, hr]

end Bib.P2p
