import Bib.P2p.Compact
import Bib.P2p.Message

/-!
# Bib.P2p.Protocol

**The request-response protocol between peers** (`p2p/protocol.go` and `p2p/protocol_client.go`). A message
travels as its length in four bytes and its JSON form. A stream is the list of pieces in which the transport
hands the bytes over, and one `Read` takes from one piece only.

The handler fills its buffers with `io.ReadFull`. The client calls `Read` once for the length and once for the
body and takes what it has not been given for zero bytes: a body that is cut short is refused for its NUL bytes,
and a length that is cut short makes it read a text that ends inside an object (`readResponse_of_cut`).
-/

namespace Bib.P2p

open Bib.Lib Bib.Lib.Json Bib.Domain List
open Bib.Cluster (marshalRaw)

/-! ### Streams -/

/-- What is still to come on a stream, in the pieces in which it comes. -/
abbrev Stream := List Bytes

/-- A piece of which some bytes have been read. -/
def leave (piece : Bytes) (rest : Stream) : Stream := if piece = [] then rest else piece :: rest

/-- One `Read` into a buffer of `n` bytes; none at the end of the stream. -/
def read (n : Nat) (stream : Stream) : Option (Bytes × Stream) :=
  if n = 0 then some ([], stream)
  else
    match stream with
    | [] => none
    | piece :: rest => some (piece.take n, leave (piece.drop n) rest)

inductive ReadError
  | eof
  | unexpectedEOF
  | tooLarge (length : Nat)
  | decode (err : DecodeError)

/-- `io.ReadFull` into a buffer of `n` bytes. -/
def readFull : Nat → Stream → Except ReadError (Bytes × Stream)
  | 0, stream => .ok ([], stream)
  | _ + 1, [] => .error .eof
  | n + 1, piece :: rest =>
    if n + 1 ≤ piece.length then .ok (piece.take (n + 1), leave (piece.drop (n + 1)) rest)
    else
      match readFull (n + 1 - piece.length) rest with
      | .ok (more, rest) => .ok (piece ++ more, rest)
      | .error .eof => .error (if piece = [] then .eof else .unexpectedEOF)
      | .error e => .error e

/-! ### Framing -/

def maxMessageSize : Nat := 10 * 1024 * 1024

/-- The length in front of a body: the four bytes of an `int` from bit 24 down. -/
def lenBytes (length : Nat) : Bytes :=
  [(length / 2 ^ 24).toUInt8, (length / 2 ^ 16).toUInt8, (length / 2 ^ 8).toUInt8, length.toUInt8]

/-- The length in a buffer of four bytes. -/
def lenValue (buf : Bytes) : Nat :=
  match buf with
  | [a, b, c, d] => a.toNat * 2 ^ 24 + b.toNat * 2 ^ 16 + c.toNat * 2 ^ 8 + d.toNat
  | _ => 0

def frame (body : Bytes) : Bytes := lenBytes body.length ++ body

/-- `writeMessage`: the bytes it writes, none if the message cannot be marshalled. -/
def writeMessage (m : Message) : Option Bytes := m.marshal.map frame

def readMessage (stream : Stream) : Except ReadError Message :=
  match readFull 4 stream with
  | .error e => .error e
  | .ok (lenBuf, stream) =>
    if maxMessageSize < lenValue lenBuf then .error (.tooLarge (lenValue lenBuf))
    else
      match readFull (lenValue lenBuf) stream with
      | .error e => .error e
      | .ok (body, _) =>
        match Message.unmarshal body with
        | .error e => .error (.decode e)
        | .ok m => .ok m

/-! ### The handler -/

/-- `MessageHandler`: an error's text, or a response that may be nil. -/
abbrev MessageHandler := Message → Except Bytes (Option Message)

/-- `ProtocolHandler`: the handlers by message type. The texts of the errors of
`encoding/json` are not modelled and stand beside them. -/
structure ProtocolHandler where
  handlers : Bytes → Option MessageHandler
  jsonText : DecodeError → Bytes

/-- The text of an error of `readMessage`. -/
def ReadError.text (jsonText : DecodeError → Bytes) : ReadError → Bytes
  | .eof => utf8 "EOF"
  | .unexpectedEOF => utf8 "unexpected EOF"
  | .tooLarge length => utf8 "message too large: " ++ natText length ++ utf8 " bytes"
  | .decode err => jsonText err

def errorMessage (code : Int64) (message : Bytes) : Message :=
  { type := utf8 "error", requestID := [], payload := none
    error := some { code, message, details := .empty } }

def writeError (code : Int64) (message : Bytes) : Option Bytes :=
  writeMessage (errorMessage code message)

/-- `handleStream`: what is written in answer to what comes in, if anything. -/
def handleStream (ph : ProtocolHandler) (stream : Stream) : Option Bytes :=
  match readMessage stream with
  | .error e => writeError 400 (utf8 "failed to read message: " ++ e.text ph.jsonText)
  | .ok msg =>
    match ph.handlers msg.type with
    | none => writeError 404 (utf8 "unknown message type: " ++ msg.type)
    | some handler =>
      match handler msg with
      | .error text => writeError 500 text
      | .ok none => none
      | .ok (some resp) => writeMessage { resp with requestID := msg.requestID }

/-! ### The client -/

inductive ClientError
  | openStream (text : Bytes)
  | marshal
  | write (text : Bytes)
  | eof
  | tooLarge (length : Nat)
  | decode (err : DecodeError)
  /-- `peer error:` and the message of the error payload. -/
  | peer (message : Bytes)
  deriving DecidableEq

/-- A buffer of `n` bytes into which `got` has been read. -/
def fill (n : Nat) (got : Bytes) : Bytes := got ++ List.replicate (n - got.length) 0

/-- The end of `sendRequest`: the response, or the error in it. -/
def Message.response (m : Message) : Except ClientError Message :=
  match m.error with
  | some e => .error (.peer e.message)
  | none => .ok m

/-- `sendRequest` from the response body on. -/
def decodeResponse (body : Bytes) : Except ClientError Message :=
  match Message.unmarshal body with
  | .error e => .error (.decode e)
  | .ok resp => resp.response

/-- `sendRequest` from the response on: one `Read` for the length and one for the body. -/
def readResponse (stream : Stream) : Except ClientError Message :=
  match read 4 stream with
  | none => .error .eof
  | some (got, stream) =>
    let respLength := lenValue (fill 4 got)
    if maxMessageSize < respLength then .error (.tooLarge respLength)
    else
      match read respLength stream with
      | none => .error .eof
      | some (got, _) => decodeResponse (fill respLength got)

/-- What befalls a request on its way: the stream may not open, the id that is made for it,
and a write may fail. -/
structure Outgoing where
  openError : Option Bytes
  requestID : Bytes
  writeError : Option Bytes

def Outgoing.withID (out : Outgoing) (msg : Message) : Message :=
  if msg.requestID = [] then { msg with requestID := out.requestID } else msg

/-- `sendRequest`; `peer` is what the other side does with the bytes of the request. -/
def sendRequest (out : Outgoing) (msg : Message) (peer : Bytes → Stream) : Except ClientError Message :=
  match out.openError with
  | some text => .error (.openStream text)
  | none =>
    match (out.withID msg).marshal with
    | none => .error .marshal
    | some body =>
      match out.writeError with
      | some text => .error (.write text)
      | none => readResponse (peer (frame body))

/-- The request is sent: the stream opens, the message can be marshalled and is written. -/
def Outgoing.sends (out : Outgoing) (msg : Message) : Bool :=
  out.openError = none && out.writeError = none && msg.payload.all valid

/-! ### The length -/

variable {n : Nat} {got body : Bytes} {stream : Stream} {m : Message}

theorem lenValue_lenBytes (h : n < 2 ^ 32) : lenValue (lenBytes n) = n := by
  simp only [lenBytes, lenValue, UInt8.toNat_ofNat']
  omega

theorem take_frame (body : Bytes) : (frame body).take 4 = lenBytes body.length := rfl

theorem drop_frame (body : Bytes) : (frame body).drop 4 = body := rfl

theorem lenValue_header (hn : n ≤ maxMessageSize) : lenValue (fill 4 (lenBytes n)) = n := by
  exact lenValue_lenBytes (Nat.lt_of_le_of_lt hn (by decide))

theorem fill_of_length (h : got.length = n) : fill n got = got := by
  simp [fill, h]

theorem zero_mem_fill (h : got.length < n) : 0 ∈ fill n got := by
  refine mem_append_right _ (mem_replicate.mpr ⟨?_, rfl⟩)
  omega

/-- A part of the header of a length gives less: nothing, or at least 256 and not more than the length. -/
theorem lenValue_part (n : Nat) {k : Nat} (hk : k < 4) :
    lenValue (fill 4 ((lenBytes n).take k)) = 0 ∨ 256 ≤ lenValue (fill 4 ((lenBytes n).take k)) ∧
        lenValue (fill 4 ((lenBytes n).take k)) ≤ n := by
  have hc : k = 0 ∨ k = 1 ∨ k = 2 ∨ k = 3 := by omega
  rcases hc with rfl | rfl | rfl | rfl
  · exact .inl rfl
  all_goals
    simp only [lenBytes, fill, take_succ_cons, take_zero, length_cons,
      length_nil, replicate, cons_append, nil_append, lenValue,
      UInt8.toNat_ofNat', UInt8.toNat_zero]
    omega

/-! ### Reading from pieces -/

theorem leave_flatten (piece : Bytes) (rest : Stream) : (leave piece rest).flatten = piece ++ rest.flatten := by
  unfold leave
  split
  next h => simp [h]
  · rfl

theorem leave_ne_nil {piece : Bytes} {rest : Stream} (h : ∀ p ∈ rest, p ≠ []) : ∀ p ∈ leave piece rest, p ≠ [] := by
  unfold leave
  split
  · exact h
  next hp => simpa [hp] using h

theorem read_cons (hn : 0 < n) (piece : Bytes) (rest : Stream) :
    read n (piece :: rest) = some (piece.take n, leave (piece.drop n) rest) :=
  if_neg (Nat.pos_iff_ne_zero.mp hn)

theorem eq_nil_of_flatten (hne : ∀ p ∈ stream, p ≠ []) (h : stream.flatten = []) : stream = [] := by
  cases stream with
  | nil => rfl
  | cons piece rest =>
    simp only [flatten_cons, append_eq_nil_iff] at h
    exact absurd h.1 (hne piece (by simp))

/-- **`io.ReadFull` does not see how the stream is cut.** -/
theorem readFull_of_le (n : Nat) (stream : Stream) (h : n ≤ stream.flatten.length) :
    ∃ rest, readFull n stream = .ok (stream.flatten.take n, rest) ∧
      rest.flatten = stream.flatten.drop n := by
  induction stream generalizing n with
  | nil =>
    obtain rfl : n = 0 := by simpa using h
    exact ⟨[], rfl, rfl⟩
  | cons piece rest ih =>
    cases n with
    | zero => exact ⟨piece :: rest, rfl, rfl⟩
    | succ n =>
      simp only [flatten_cons, length_append] at h
      by_cases hle : n + 1 ≤ piece.length
      · refine ⟨leave (piece.drop (n + 1)) rest, ?_, ?_⟩
        · rw [readFull, if_pos hle, flatten_cons, take_append_of_le_length hle]
        · rw [leave_flatten, flatten_cons, drop_append_of_le_length hle]
      · have ht : piece.take (n + 1) = piece := take_of_length_le (by omega)
        have hd : piece.drop (n + 1) = [] := drop_of_length_le (by omega)
        obtain ⟨last, hread, hlast⟩ := ih (n + 1 - piece.length) (by omega)
        refine ⟨last, ?_, ?_⟩
        · rw [readFull, if_neg hle, hread, flatten_cons, take_append, ht]
        · rw [hlast, flatten_cons, drop_append, hd, nil_append]

/-- **The handler reads what was written, however the stream is cut.** -/
theorem readMessage_of_flatten
    (hs : body.length ≤ maxMessageSize) (h : stream.flatten = frame body) : readMessage stream =
      match Message.unmarshal body with
      | .error e => .error (.decode e)
      | .ok m => .ok m := by
  have hlen : lenValue (lenBytes body.length) = body.length :=
    lenValue_lenBytes (Nat.lt_of_le_of_lt hs (by decide))
  obtain ⟨rest, hh, hrest⟩ := readFull_of_le 4 stream (by rw [h, frame]; simp [lenBytes])
  rw [h, take_frame] at hh
  rw [h, drop_frame] at hrest
  obtain ⟨last, hb, -⟩ := readFull_of_le body.length rest (by rw [hrest])
  rw [hrest] at hb
  rw [readMessage, hh]
  simp [hlen, if_neg (Nat.not_lt.mpr hs), hb]

/-! ### Reading with one `Read` -/

/-- The bytes come in one piece, or cut between the length and the body. -/
def arrivesWhole (wire : Bytes) (stream : Stream) : Prop :=
  stream = [wire] ∨ stream = [wire.take 4, wire.drop 4]

theorem readResponse_of_whole (hp : 0 < body.length)
    (hs : body.length ≤ maxMessageSize) (h : arrivesWhole (frame body) stream) :
    readResponse stream = decodeResponse body := by
  -- either way the length is read first and the body is the next piece
  have hread : read 4 stream = some (lenBytes body.length, [body]) := by
    rcases h with rfl | rfl
    · have hne : body ≠ [] := length_pos_iff.mp hp
      rw [read_cons (by decide), take_frame, drop_frame, leave, if_neg hne]
    · rfl
  have hb : read body.length [body] = some (body, []) := by
    rw [read_cons hp, take_length, drop_length]
    rfl
  rw [readResponse, hread]
  simp [lenValue_header hs, if_neg (Nat.not_lt.mpr hs), hb, fill_of_length]

theorem decodeResponse_of_refused {text : Bytes} (h : valid text = false) :
    decodeResponse text = .error (.decode .invalid) := by
  simp [decodeResponse, Message.unmarshal, unmarshal, h]

theorem valid_of_short (h : got.length < n) : valid (fill n got) = false :=
  accepts_of_zero_mem (zero_mem_fill h)

section Cut

variable {body : Bytes} {stream : Stream}

theorem readBody_of_cut (hpo : 0 < body.length) {rest : Stream} (hne : ∀ p ∈ rest, p ≠ [])
    (hf : rest.flatten = body) (hc : rest ≠ [body]) :
    ∃ got rest', read body.length rest = some (got, rest') ∧
      valid (fill body.length got) = false := by
  cases rest with
  | nil =>
    rw [← hf] at hpo
    cases hpo
  | cons piece rest =>
    refine ⟨_, _, read_cons hpo piece rest, valid_of_short ?_⟩
    rw [flatten_cons] at hf
    rw [length_take]
    by_contra hl
    -- a piece as long as the body is the body
    have hlen := congrArg length hf
    simp only [length_append] at hlen
    have hrest : rest = [] := by
      refine eq_nil_of_flatten (fun p hp => hne p (by simp [hp])) (length_eq_zero_iff.mp ?_)
      omega
    subst hrest
    simp only [flatten_nil, append_nil] at hf
    exact hc (by rw [hf])

variable {limit : Nat}

/-- A part of the length has been read: the rest of it and the beginning of the body are
taken for the body. -/
theorem readBody_of_part (hv : IsValue limit body)
    (hh : ∃ x more, body = 0x7b :: 0x22 :: x :: more ∧ isDelimiter x = false)
    {n : Nat} (hn : 256 ≤ n) (hle : n ≤ body.length) {front : Bytes} (hf : 0 < front.length)
    (hs : front.length < 4) {rest : Stream} (hfl : rest.flatten = front ++ body) :
    ∃ got rest', read n rest = some (got, rest') ∧ valid (fill n got) = false := by
  obtain ⟨x, more, hb, hx⟩ := hh
  cases rest with
  | nil =>
    have := congrArg length hfl
    simp only [flatten_nil, length_nil, length_append] at this
    omega
  | cons piece rest =>
    refine ⟨_, _, read_cons (by omega) piece rest, ?_⟩
    by_cases hp : piece.length < n
    · exact valid_of_short (by rw [length_take]; omega)
    · rw [flatten_cons] at hfl
      have hg : piece.take n = front ++ body.take (n - front.length) := by
        have ht := congrArg (take n) hfl
        rwa [take_append_of_le_length (by omega), take_append,
          take_of_length_le (show front.length ≤ n by omega)] at ht
      rw [fill_of_length (by rw [length_take]; omega), hg]
      obtain ⟨k, hk⟩ := Nat.exists_eq_add_of_le' (show 3 ≤ n - front.length by omega)
      have hc : body.take (n - front.length) = 0x7b :: 0x22 :: x :: more.take k := by
        rw [hk, hb]
        rfl
      have hrest : body.drop (n - front.length) ≠ [] := by
        intro hni
        have := drop_eq_nil_iff.mp hni
        omega
      rw [← take_append_drop (n - front.length) body, hc] at hv
      rw [hc]
      exact accepts_append_cut hx hrest hv

theorem length_pos_of_head (hh : ∃ x more, body = 0x7b :: 0x22 :: x :: more ∧ isDelimiter x = false) :
    0 < body.length := by
  obtain ⟨x, more, rfl, -⟩ := hh
  exact Nat.succ_pos _

section Piece

variable {piece : Bytes} {rest : Stream}

theorem leave_ne_body (hh : piece.take 4 = lenBytes body.length)
    (hc : ¬ arrivesWhole (frame body) (piece :: rest)) : leave (piece.drop 4) rest ≠ [body] := by
  intro hl
  have hp := take_append_drop 4 piece
  rw [hh] at hp
  unfold leave at hl
  split at hl
  next hn =>
    rw [hn, append_nil] at hp
    exact hc (.inr (by rw [hl, take_frame, drop_frame, hp]))
  · simp only [cons.injEq] at hl
    rw [hl.1] at hp
    exact hc (.inl (by rw [hl.2, frame, hp]))

theorem readResponse_of_header (hfo : 4 ≤ piece.length) (hp : 0 < body.length)
    (hs : body.length ≤ maxMessageSize) (hne : ∀ p ∈ rest, p ≠ [])
    (hf : piece ++ rest.flatten = frame body) (hc : ¬ arrivesWhole (frame body) (piece :: rest)) :
    readResponse (piece :: rest) = .error (.decode .invalid) := by
  have hh : piece.take 4 = lenBytes body.length := by
    have ht := congrArg (take 4) hf
    rwa [take_append_of_le_length hfo] at ht
  have hb : (leave (piece.drop 4) rest).flatten = body := by
    have hd := congrArg (drop 4) hf
    rwa [drop_append_of_le_length hfo, ← leave_flatten] at hd
  obtain ⟨got, rest', hread, hr⟩ := readBody_of_cut hp (leave_ne_nil hne) hb (leave_ne_body hh hc)
  rw [readResponse, read_cons (by decide)]
  simp [hh, lenValue_header hs, if_neg (Nat.not_lt.mpr hs), hread, decodeResponse_of_refused hr]

theorem readResponse_of_part {limit : Nat} (hv : IsValue limit body)
    (hh : ∃ x more, body = 0x7b :: 0x22 :: x :: more ∧ isDelimiter x = false)
    (hpo : 0 < piece.length) (hfo : piece.length < 4) (hs : body.length ≤ maxMessageSize)
    (hf : piece ++ rest.flatten = frame body) :
    readResponse (piece :: rest) = .error (.decode .invalid) := by
  have hlen : piece.length ≤ (lenBytes body.length).length := hfo.le
  have hp : piece = (lenBytes body.length).take piece.length := by
    have hpa := congrArg (take piece.length) hf
    rwa [take_left' rfl, frame, take_append_of_le_length hlen] at hpa
  have hrest : rest.flatten = (lenBytes body.length).drop piece.length ++ body := by
    have hpa := congrArg (drop piece.length) hf
    rwa [drop_left' rfl, frame, drop_append_of_le_length hlen] at hpa
  have hl : leave (piece.drop 4) rest = rest := by
    rw [drop_of_length_le hfo.le]
    rfl
  rw [readResponse, read_cons (by decide), take_of_length_le hfo.le, hl, hp]
  rcases lenValue_part body.length hfo with hz | ⟨hlo, hhi⟩
  · have hn : valid [] = false := rfl
    simp only [hz]
    exact decodeResponse_of_refused hn
  · obtain ⟨got, rest', hread, hr⟩ := readBody_of_part hv hh hlo hhi
      (by simp [lenBytes]; omega) (by simp [lenBytes]; omega) hrest
    simp [if_neg (Nat.not_lt.mpr (hhi.trans hs)), hread, decodeResponse_of_refused hr]

end Piece

/-- **A response that does not come whole is refused.** -/
theorem readResponse_of_cut (hv : IsValue limit body)
    (hh : ∃ x more, body = 0x7b :: 0x22 :: x :: more ∧ isDelimiter x = false)
    (hs : body.length ≤ maxMessageSize) (hne : ∀ p ∈ stream, p ≠ [])
    (hf : stream.flatten = frame body) (hc : ¬ arrivesWhole (frame body) stream) :
    readResponse stream = .error (.decode .invalid) := by
  cases stream with
  | nil => cases hf
  | cons piece rest =>
    by_cases hfo : 4 ≤ piece.length
    · have hn : ∀ p ∈ rest, p ≠ [] := fun p hp => hne p (by simp [hp])
      exact readResponse_of_header hfo (length_pos_of_head hh) hs hn hf hc
    · have hpo : 0 < piece.length := length_pos_iff.mpr (hne piece (by simp))
      exact readResponse_of_part hv hh hpo (Nat.not_le.mp hfo) hs hf

end Cut

/-! ### What the client returns -/

theorem sendRequest_of_sends {out : Outgoing} {msg : Message} (h : out.sends msg)
    (peer : Bytes → Stream) : ∃ body, (out.withID msg).marshal = some body ∧
      sendRequest out msg peer = readResponse (peer (frame body)) := by
  simp only [Outgoing.sends, Bool.and_eq_true, decide_eq_true_eq] at h
  obtain ⟨⟨ho, hwrite⟩, hvalid⟩ := h
  have hp : (out.withID msg).payload.all valid := by
    unfold Outgoing.withID
    split
    · exact hvalid
    · exact hvalid
  have hm : (out.withID msg).marshal = some (objectText (out.withID msg).members) := if_pos hp
  exact ⟨_, hm, by simp only [sendRequest, ho, hm, hwrite]⟩

/-- What the client returns of the message has a JSON form that is read back unchanged: of
an error its text, of any other message the type, the request id and the payload. -/
def Message.legible (m : Message) : Bool :=
  match m.error with
  | some e => validUTF8 e.message
  | none => validUTF8 m.type && validUTF8 m.requestID && m.payload.any isCompact

/-- The message comes through JSON unchanged. -/
def Message.survives (m : Message) : Bool := m.fits && m.legible

theorem payload_received_iff {payload : Option Bytes} (h : payload.all valid) :
    some (marshalRaw payload) = payload ↔ payload.any isCompact := by
  cases payload with
  | none => simp
  | some raw =>
    rw [Option.some.injEq]
    exact marshalRaw_eq_self_iff h

theorem response_received_iff (h : m.payload.all valid) : m.received.response = m.response ↔ m.legible := by
  unfold Message.legible
  cases he : m.error with
  | some e =>
    simp only [Message.response, Message.received, he, Option.map_some, Except.error.injEq,
      ClientError.peer.injEq, ErrorPayload.received]
    exact toValid_eq_self_iff e.message
  | none =>
    obtain ⟨type, requestID, payload, error⟩ := m
    subst he
    simp only [Message.response, Message.received, Option.map_none, Except.ok.injEq,
      Message.mk.injEq, and_true, Bool.and_eq_true]
    rw [toValid_eq_self_iff, toValid_eq_self_iff, payload_received_iff h, and_assoc]

theorem decode_ne_response (err : DecodeError) (m : Message) : .error (.decode err) ≠ m.response := by
  unfold Message.response
  split <;> simp

theorem decodeResponse_marshal (h : m.marshal = some body) : decodeResponse body = m.response ↔ m.survives := by
  have hread := Message.unmarshal_marshal h
  rw [Message.survives, Bool.and_eq_true, ← response_received_iff (Message.marshal_eq_some h).1,
    decodeResponse, hread]
  by_cases hf : m.fits
  · simp [hf]
  · simp [hf, decode_ne_response]

theorem marshal_head (h : m.marshal = some body) :
    ∃ x more, body = 0x7b :: 0x22 :: x :: more ∧ isDelimiter x = false := by
  obtain ⟨-, rfl⟩ := Message.marshal_eq_some h
  exact ⟨0x74, _, rfl, rfl⟩

theorem writeMessage_body {wire : Bytes} (h : writeMessage m = some wire) (hs : wire.length ≤ 4 + maxMessageSize) :
    ∃ body, m.marshal = some body ∧ wire = frame body ∧ 0 < body.length ∧
      body.length ≤ maxMessageSize := by
  obtain ⟨body, hb, rfl⟩ := Option.map_eq_some_iff.mp h
  rw [frame, length_append] at hs
  exact ⟨body, hb, rfl, length_pos_of_head (marshal_head hb), Nat.le_of_add_le_add_left hs⟩

/-- **The client returns the response that was written exactly if** its bytes come in one
piece, or cut between the length and the body, and the message comes through JSON
unchanged. -/
theorem sendRequest_returns_iff (out : Outgoing) (request : Message) (hsends : out.sends request)
    (m : Message) (wire : Bytes) (hwrite : writeMessage m = some wire)
    (hsize : wire.length ≤ 4 + maxMessageSize) (stream : Stream) (hne : ∀ p ∈ stream, p ≠ [])
    (hflat : stream.flatten = wire) : sendRequest out request (fun _ => stream) = m.response ↔
      arrivesWhole wire stream ∧ m.survives := by
  obtain ⟨-, -, hs⟩ := sendRequest_of_sends hsends fun _ => stream
  obtain ⟨body, hb, rfl, hp, hsize⟩ := writeMessage_body hwrite hsize
  rw [hs]
  by_cases hw : arrivesWhole (frame body) stream
  · rw [readResponse_of_whole hp hsize hw, decodeResponse_marshal hb]
    simp [hw]
  · rw [readResponse_of_cut (Message.isValue_marshal hb) (marshal_head hb) hsize hne hflat hw]
    simp [hw, decode_ne_response]

def shortAnswer : Message :=
  { type := utf8 "chunk", requestID := utf8 "7", payload := some [0x31], error := none }

def shortQuestion : Message :=
  { type := utf8 "get_chunk", requestID := utf8 "7", payload := some [0x31], error := none }

def undisturbed : Outgoing := { openError := none, requestID := utf8 "8", writeError := none }

theorem sendRequest_returns_whole : sendRequest undisturbed shortQuestion
        (fun _ => [frame (objectText shortAnswer.members)]) = .ok shortAnswer :=
  (sendRequest_returns_iff undisturbed shortQuestion (by decide +kernel) shortAnswer
    (frame (objectText shortAnswer.members)) (by decide +kernel) (by decide +kernel)
    [frame (objectText shortAnswer.members)] (by decide +kernel) (by decide +kernel)).mpr
    ⟨.inl rfl, by decide +kernel⟩

/-- The same answer, cut in the middle of its body, is an error. -/
theorem sendRequest_cut_fails :
    ∃ wire stream, writeMessage shortAnswer = some wire ∧ wire.length ≤ 4 + maxMessageSize ∧
      (∀ p ∈ stream, p ≠ []) ∧ stream.flatten = wire ∧
      sendRequest undisturbed shortQuestion (fun _ => stream) ≠ shortAnswer.response :=
  ⟨frame (objectText shortAnswer.members),
    [(frame (objectText shortAnswer.members)).take 9, (frame (objectText shortAnswer.members)).drop 9],
    by decide +kernel, by decide +kernel, by decide +kernel, by decide +kernel,
    by decide +kernel⟩

end Bib.P2p
