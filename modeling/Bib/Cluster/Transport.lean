import Bib.Domain.Chunk
import Bib.Lib.Frame
import Bib.Lib.Json.Struct
import Bib.Lib.Run
import Mathlib.Data.List.TakeWhile

/-!
# Bib.Cluster.Transport

**Messages between Raft nodes** (`internal/cluster/transport.go`). A message is JSON in a frame of bytes. The
side that accepts a connection first reads a frame with the node id of the other side, the handshake, and then
messages; the side that dialled reads messages from the start. No function writes a handshake.

A connection is given by who dialled it and by the messages that `Send` has written to it, and the far end by
what it makes of the bytes (`Conn.far`), which arrive all and in time.
-/

namespace Bib.Cluster

open Bib.Lib Bib.Domain Bib.Lib.Json List

/-! ### Messages -/

/-- `RaftMessage`; `sender` and `receiver` are the fields `From` and `To`. -/
structure RaftMessage where
  type : UInt8
  (sender receiver : Bytes)
  (term logIndex logTerm commit : UInt64)
  entries : Bytes
  (success reject : Bool)
  data : Bytes
  deriving DecidableEq

/-- `encodeMessage` and `decodeMessage`, which call `encoding/json`. -/
structure Wire where
  encode : RaftMessage → Bytes
  decode : Bytes → Option RaftMessage

/-- What JSON does for a message: it comes back, a part of its text is no JSON, and the text has no
control characters. -/
structure Wire.Faithful (wire : Wire) (msg : RaftMessage) : Prop where
  roundTrip : wire.decode (wire.encode msg) = some msg
  truncated : ∀ n < (wire.encode msg).length, wire.decode ((wire.encode msg).take n) = none
  printable : ∀ b ∈ wire.encode msg, 32 ≤ b

/-- The size `readMessage` allows, 64 MiB. -/
def maxMessage : Nat := 67108864

/-- The size `readHandshake` allows. -/
def maxHandshake : Nat := 1024

/-! ### The two ends of a connection -/

/-- `readMessage`, and what follows in the stream. -/
def readMessage (wire : Wire) (stream : Bytes) : Option (RaftMessage × Bytes) :=
  match Frame.readFrame maxMessage stream with
  | none => none
  | some (data, rest) => (wire.decode data).map fun msg => (msg, rest)

/-- The loop of `handleConn`: the messages up to the first error. -/
def readLoop (wire : Wire) : Nat → Bytes → List RaftMessage
  | 0, _ => []
  | fuel + 1, stream =>
    match readMessage wire stream with
    | none => []
    | some (msg, rest) => msg :: readLoop wire fuel rest

/-- `handleConn`; a message takes a byte or more, so the loop ends. -/
def handleConn (wire : Wire) (stream : Bytes) : List RaftMessage := readLoop wire stream.length stream

/-- `handleIncomingConn`: the name under which the connection is registered, and the messages. -/
def handleIncomingConn (wire : Wire) (stream : Bytes) : Option (Bytes × List RaftMessage) :=
  match Frame.readFrame maxHandshake stream with
  | none => none
  | some (nodeID, rest) => some (nodeID, handleConn wire rest)

/-- Where an entry of `peers` comes from. -/
inductive Origin
  | dialled
  /-- The peer has dialled, with `Connect` for the given node id. -/
  | accepted (name : Bytes)
  /-- The other end is not the peer. -/
  | elsewhere

/-- A connection in `peers`, with the messages that were written to it. -/
structure Conn where
  origin : Origin
  sent : List RaftMessage

def Conn.stream (wire : Wire) (conn : Conn) : Bytes :=
  conn.sent.flatMap fun msg => Frame.frame (wire.encode msg)

/-- What the peer makes of a connection: its name for it, and the messages it reads. -/
def Conn.far (wire : Wire) (conn : Conn) : Option (Bytes × List RaftMessage) :=
  match conn.origin with
  | .dialled => handleIncomingConn wire (conn.stream wire)
  | .accepted name => some (name, handleConn wire (conn.stream wire))
  | .elsewhere => none

/-- The name under which the peer has registered the connection. -/
def Conn.registered (wire : Wire) (conn : Conn) : Option Bytes := (conn.far wire).map Prod.fst

def Conn.received (wire : Wire) (conn : Conn) : List RaftMessage := ((conn.far wire).map Prod.snd).getD []

/-! ### Transports -/

structure Transport where
  nodeID : Bytes
  peers : KeyMap Bytes Conn

inductive TransportError
  | failedToConnect (addr err : String)
  | notConnected (nodeID : Bytes)

/-- `Connect`; `dial` is the outcome of `net.DialTimeout`. -/
def Transport.connect (nodeID : Bytes) (addr : String) (dial : Except String Unit) (t : Transport) :
    Except TransportError Transport :=
  match t.peers.get? nodeID with
  | some _ => .ok t
  | none =>
    match dial with
    | .error err => .error (.failedToConnect addr err)
    | .ok () => .ok { t with peers := t.peers.set nodeID { origin := .dialled, sent := [] } }

/-- `Send`, on a connection that takes what is written. -/
def Transport.send (msg : RaftMessage) (t : Transport) : Except TransportError Transport :=
  match t.peers.get? msg.receiver with
  | none => .error (.notConnected msg.receiver)
  | some conn => .ok { t with peers := t.peers.set msg.receiver { conn with sent := conn.sent ++ [msg] } }

def Transport.sendAll : List RaftMessage → Transport → Except TransportError Transport
  | [], t => .ok t
  | msg :: msgs, t =>
    match t.send msg with
    | .error err => .error err
    | .ok t' => t'.sendAll msgs

/-! ### What is read -/

/-- The message is small enough for `readMessage`. -/
def Wire.fits (wire : Wire) (msg : RaftMessage) : Bool := (wire.encode msg).length ≤ maxMessage

section Read

variable {wire : Wire} {msg : RaftMessage} {msgs : List RaftMessage}

theorem maxMessage_lt : maxMessage < 4294967296 := by
  rw [maxMessage]
  omega

theorem Wire.fits_iff : wire.fits msg ↔ (wire.encode msg).length ≤ maxMessage := by
  rw [Wire.fits, decide_eq_true_iff]

variable {stream rest : Bytes}

theorem readMessage_of_none (h : Frame.readFrame maxMessage stream = none) : readMessage wire stream = none := by
  rw [readMessage, h]

theorem readMessage_of_some {data : Bytes}
    (h : Frame.readFrame maxMessage stream = some (data, rest)) :
    readMessage wire stream = (wire.decode data).map fun msg => (msg, rest) := by
  rw [readMessage, h]

theorem readMessage_of_fits (hf : wire.Faithful msg) (hfi : wire.fits msg) (rest : Bytes) :
    readMessage wire (Frame.frame (wire.encode msg) ++ rest) = some (msg, rest) := by
  rw [readMessage_of_some (Frame.readFrame_frame rest (Wire.fits_iff.mp hfi) maxMessage_lt),
    hf.roundTrip, Option.map_some]

/-- A message that is too large is refused. If its length has wrapped, its beginning is taken for the
whole, and that is no JSON. -/
theorem readMessage_of_not_fits (hf : wire.Faithful msg) (hfi : ¬ wire.fits msg)
    (rest : Bytes) : readMessage wire (Frame.frame (wire.encode msg) ++ rest) = none := by
  rw [Wire.fits_iff, Nat.not_le] at hfi
  rcases Frame.readFrame_eq_none_or rest hfi with hnone | ⟨n, -, hsome, hn⟩
  · exact readMessage_of_none hnone
  · rw [readMessage_of_some hsome, hf.truncated n (by omega), Option.map_none]

theorem readLoop_frames (hf : ∀ msg ∈ msgs, wire.Faithful msg) {fuel : Nat}
    (hfu : msgs.length ≤ fuel) :
    readLoop wire fuel (msgs.flatMap fun msg => Frame.frame (wire.encode msg)) =
      msgs.takeWhile wire.fits := by
  induction msgs generalizing fuel with
  | nil => cases fuel <;> rfl
  | cons msg msgs ih =>
    obtain ⟨fuel, rfl⟩ : ∃ k, fuel = k + 1 := ⟨fuel - 1, by simp at hfu; omega⟩
    have hms := hf msg mem_cons_self
    have hrest := ih (fun m hm => hf m (mem_cons_of_mem _ hm)) (Nat.le_of_succ_le_succ hfu)
    rw [readLoop, flatMap_cons]
    by_cases hfi : wire.fits msg
    · rw [readMessage_of_fits hms hfi, takeWhile_cons_of_pos hfi]
      dsimp only
      rw [hrest]
    · rw [readMessage_of_not_fits hms hfi, takeWhile_cons_of_neg hfi]

/-- The messages before the first that is too large are read. -/
theorem handleConn_frames (hf : ∀ msg ∈ msgs, wire.Faithful msg) :
    handleConn wire (msgs.flatMap fun msg => Frame.frame (wire.encode msg)) =
      msgs.takeWhile wire.fits := by
  refine readLoop_frames hf ?_
  induction msgs with
  | nil => exact Nat.zero_le _
  | cons msg msgs ih =>
    have hrest := ih fun m hm => hf m (mem_cons_of_mem _ hm)
    simp only [flatMap_cons, length_append, Frame.length_frame, length_cons]
    omega

/-! ### Messages in fragments -/

/-- `readMessage` on a connection whose bytes come in fragments: what `decodeMessage` makes of the frame, and
the fragments that are left. The outer `none` is an error before that. -/
def receive (wire : Wire) (frags : List Bytes) : Option (Option RaftMessage × List Bytes) :=
  match Frame.readFull 4 frags with
  | none => none
  | some (header, frags) =>
    match Frame.readHeader header with
    | none => none
    | some (length, _) =>
      if length > maxMessage then none
      else (Frame.readFull length frags).map (Prod.map wire.decode id)

/-- `readMessage` the given number of times. -/
def receiveAll (wire : Wire) : Nat → List Bytes → Option (List (Option RaftMessage) × List Bytes)
  | 0, frags => some ([], frags)
  | n + 1, frags =>
    match receive wire frags with
    | none => none
    | some (msg, frags) => (receiveAll wire n frags).map (Prod.map (msg :: ·) id)

theorem receive_frame {frags : List Bytes} (hne : ∀ f ∈ frags, f ≠ []) (hfi : wire.fits msg)
    (h : frags.flatten = Frame.frame (wire.encode msg) ++ rest) : ∃ frags',
      receive wire frags = some (wire.decode (wire.encode msg), frags') ∧
        frags'.flatten = rest ∧ ∀ f ∈ frags', f ≠ [] := by
  have hle := Wire.fits_iff.mp hfi
  have hm : (wire.encode msg).length % 4294967296 = (wire.encode msg).length :=
    Nat.mod_eq_of_lt (Nat.lt_of_le_of_lt hle maxMessage_lt)
  rw [Frame.frame, append_assoc] at h
  obtain ⟨frags', hr, hd, hne'⟩ := Frame.readFull_eq hne (n := 4) (by simp [h])
  rw [h, take_left' (Frame.length_header _)] at hr
  rw [h, drop_left' (Frame.length_header _)] at hd
  obtain ⟨frags'', hr', hd', hne''⟩ := Frame.readFull_eq hne' (n := (wire.encode msg).length) (by simp [hd])
  rw [hd, take_left' rfl] at hr'
  rw [hd, drop_left' rfl] at hd'
  have hh := Frame.readHeader_header (wire.encode msg).length []
  rw [append_nil, hm] at hh
  refine ⟨frags'', ?_, hd', hne''⟩
  simp only [receive, hr, hh, if_neg (Nat.not_lt.mpr hle), hr']
  rfl

/-- **Framing loses nothing.** However the connection splits what `Send` has written, `readMessage`
gives for each message in turn what decoding its encoding gives, and no byte is left over. -/
theorem receiveAll_stream (wire : Wire) (conn : Conn) (hfits : ∀ msg ∈ conn.sent, wire.fits msg)
    (frags : List Bytes) (hne : ∀ f ∈ frags, f ≠ []) (hstream : frags.flatten = conn.stream wire) :
    receiveAll wire conn.sent.length frags =
      some (conn.sent.map fun msg => wire.decode (wire.encode msg), []) := by
  obtain ⟨origin, msgs⟩ := conn
  induction msgs generalizing frags with
  | nil =>
    cases frags with
    | nil => rfl
    | cons f frags => exact absurd (append_eq_nil_iff.mp hstream).1 (hne f mem_cons_self)
  | cons msg msgs ih =>
    obtain ⟨hfi, hfits⟩ := forall_mem_cons.mp hfits
    obtain ⟨frags', hr, hd, hne'⟩ := receive_frame hne hfi hstream
    rw [length_cons, receiveAll, hr]
    dsimp only
    rw [ih frags' hne' hfits hd]
    rfl

/-! ### The handshake -/

theorem handleIncomingConn_of_some {nodeID : Bytes}
    (h : Frame.readFrame maxHandshake stream = some (nodeID, rest)) :
    handleIncomingConn wire stream = some (nodeID, handleConn wire rest) := by
  rw [handleIncomingConn, h]

theorem handleConn_of_none (h : readMessage wire stream = none) : handleConn wire stream = [] := by
  unfold handleConn
  cases stream.length with
  | zero => rfl
  | succ fuel => rw [readLoop, h]

/-- Four characters of a text are no length that `readMessage` allows. -/
theorem readFrame_of_printable {a b c d : UInt8} (h : 32 ≤ a) (rest : Bytes) :
    Frame.readFrame maxMessage (a :: b :: c :: d :: rest) = none := by
  have ha : 32 ≤ a.toNat := UInt8.le_iff_toNat_le.mp h
  have hl : a.toNat * 16777216 + b.toNat * 65536 + c.toNat * 256 + d.toNat > maxMessage := by
    rw [maxMessage]
    omega
  exact if_pos hl

theorem handleConn_of_printable {text : Bytes} (hl : 4 ≤ text.length) (h : ∀ b ∈ text, 32 ≤ b)
    (rest : Bytes) : handleConn wire (text ++ rest) = [] := by
  match text with
  | a :: b :: c :: d :: text =>
    exact handleConn_of_none (readMessage_of_none (readFrame_of_printable (h a mem_cons_self) _))
  | [] | [_] | [_, _] | [_, _, _] => simp at hl

theorem handleIncomingConn_short (hf : ∀ msg ∈ msgs, wire.Faithful msg)
    (hs : (wire.encode msg).length ≤ maxHandshake) :
    handleIncomingConn wire ((msg :: msgs).flatMap fun msg => Frame.frame (wire.encode msg)) =
      some (wire.encode msg, msgs.takeWhile wire.fits) := by
  rw [flatMap_cons, handleIncomingConn_of_some (Frame.readFrame_frame _ hs (by decide)),
    handleConn_frames hf]

/-- Otherwise no message is read. -/
theorem handleIncomingConn_long (hf : wire.Faithful msg)
    (hlo : maxHandshake < (wire.encode msg).length) : ((handleIncomingConn wire
      ((msg :: msgs).flatMap fun msg => Frame.frame (wire.encode msg))).map Prod.snd).getD [] = [] := by
  rw [flatMap_cons]
  rcases Frame.readFrame_eq_none_or _ hlo with hnone | ⟨n, -, hsome, hn⟩
  · rw [handleIncomingConn, hnone]
    rfl
  · have hp : ∀ b ∈ (wire.encode msg).drop n, 32 ≤ b := fun b hb =>
      hf.printable b (mem_of_mem_drop hb)
    have hl : 4 ≤ ((wire.encode msg).drop n).length := by
      rw [length_drop]
      omega
    rw [handleIncomingConn_of_some hsome, handleConn_of_printable hl hp]
    rfl

end Read

/-! ### When messages arrive -/

/-- The peer has registered the connection under the node id: the peer has dialled it with that id,
or the first message is no longer than a handshake and its text is the id. -/
def Conn.KnownAs (wire : Wire) (nodeID : Bytes) (conn : Conn) : Prop :=
  match conn.origin with
  | .dialled => conn.sent.head?.map wire.encode = some nodeID ∧ nodeID.length ≤ maxHandshake
  | .accepted name => name = nodeID
  | .elsewhere => False

def Conn.payload (conn : Conn) : List RaftMessage :=
  match conn.origin with
  | .dialled => conn.sent.tail
  | _ => conn.sent

def Conn.push (msgs : List RaftMessage) (conn : Conn) : Conn := { conn with sent := conn.sent ++ msgs }

section Delivery

variable {wire : Wire} {conn : Conn} {nodeID : Bytes} {msgs : List RaftMessage}

theorem Conn.far_of_knownAs (hf : ∀ msg ∈ conn.sent, wire.Faithful msg) (h : conn.KnownAs wire nodeID) :
    conn.far wire = some (nodeID, conn.payload.takeWhile wire.fits) := by
  obtain ⟨origin, sent⟩ := conn
  cases origin with
  | dialled =>
    obtain ⟨hh, hl⟩ := h
    cases sent with
    | nil => cases hh
    | cons msg sent =>
      cases hh
      exact handleIncomingConn_short (fun m hm => hf m (mem_cons_of_mem _ hm)) hl
  | accepted name =>
    cases h
    exact congrArg (fun msgs => some (nodeID, msgs)) (handleConn_frames hf)
  | elsewhere => cases h

theorem Conn.knownAs_of_received (hf : ∀ msg ∈ conn.sent, wire.Faithful msg)
    (hre : conn.registered wire = some nodeID) (hr : conn.received wire ≠ []) :
    conn.KnownAs wire nodeID := by
  obtain ⟨origin, sent⟩ := conn
  cases origin with
  | dialled =>
    cases sent with
    | nil => cases hre
    | cons msg sent =>
      by_cases hl : (wire.encode msg).length ≤ maxHandshake
      · have hfa : Conn.far wire { origin := .dialled, sent := msg :: sent } =
            some (wire.encode msg, sent.takeWhile wire.fits) :=
          handleIncomingConn_short (fun m hm => hf m (mem_cons_of_mem _ hm)) hl
        rw [Conn.registered, hfa, Option.map_some, Option.some.injEq] at hre
        subst hre
        exact ⟨rfl, hl⟩
      · exact absurd (handleIncomingConn_long (hf msg mem_cons_self) (Nat.not_le.mp hl)) hr
  | accepted name => exact Option.some.inj hre
  | elsewhere => cases hre

theorem Conn.KnownAs.push (h : conn.KnownAs wire nodeID) (msgs : List RaftMessage) :
    (conn.push msgs).KnownAs wire nodeID ∧ (conn.push msgs).payload = conn.payload ++ msgs := by
  obtain ⟨origin, sent⟩ := conn
  cases origin with
  | dialled =>
    cases sent with
    | nil => cases h.1
    | cons msg sent => exact ⟨h, rfl⟩
  | accepted name => exact ⟨h, rfl⟩
  | elsewhere => cases h

/-- Messages to a connection by which the peer does not yet know it make it known at most by taking
the first one away. -/
theorem Conn.knownAs_or_of_push (h : (conn.push msgs).KnownAs wire nodeID) :
    conn.KnownAs wire nodeID ∨ conn.received wire = [] ∧ (conn.push msgs).payload = msgs.tail := by
  obtain ⟨origin, sent⟩ := conn
  cases origin with
  | dialled =>
    cases sent with
    | nil => exact .inr ⟨rfl, rfl⟩
    | cons msg sent => exact .inl h
  | accepted name => exact .inl h
  | elsewhere => cases h

theorem takeWhile_append_eq_iff {p : RaftMessage → Bool} {sent : List RaftMessage} (hne : msgs ≠ []) :
    (sent ++ msgs).takeWhile p = sent.takeWhile p ++ msgs ↔ ∀ msg ∈ sent ++ msgs, p msg := by
  induction sent with
  | nil => exact takeWhile_eq_self_iff
  | cons msg sent ih =>
    by_cases hp : p msg
    · rw [cons_append, takeWhile_cons_of_pos hp, takeWhile_cons_of_pos hp,
        cons_append, cons_inj_right, ih, forall_mem_cons]
      exact ⟨fun h => ⟨hp, h⟩, fun h => h.2⟩
    · rw [cons_append, takeWhile_cons_of_neg hp, takeWhile_cons_of_neg hp]
      refine ⟨fun h => absurd h.symm hne, fun h => absurd (h msg mem_cons_self) hp⟩

/-- Messages arrive over a connection that the peer knows by the node id, if all of them are small
enough, and over no other. -/
theorem Conn.received_push_iff (hs : ∀ msg ∈ conn.sent, wire.Faithful msg)
    (hms : ∀ msg ∈ msgs, wire.Faithful msg) (hne : msgs ≠ []) :
    ((conn.push msgs).registered wire = some nodeID ∧
        (conn.push msgs).received wire = conn.received wire ++ msgs) ↔
      conn.KnownAs wire nodeID ∧ ∀ msg ∈ conn.payload ++ msgs, wire.fits msg := by
  have hf : ∀ msg ∈ (conn.push msgs).sent, wire.Faithful msg := fun msg hm =>
    (mem_append.mp hm).elim (hs msg) (hms msg)
  have hr : ∀ c : Conn, (∀ msg ∈ c.sent, wire.Faithful msg) → c.KnownAs wire nodeID →
      c.received wire = c.payload.takeWhile wire.fits := by
    intro c hc hknown
    rw [Conn.received, c.far_of_knownAs hc hknown]
    rfl
  constructor
  · intro h
    have hpu : (conn.push msgs).KnownAs wire nodeID :=
      (conn.push msgs).knownAs_of_received hf h.1 (by simp [h.2, hne])
    have hread := h.2
    rw [hr _ hf hpu] at hread
    rcases Conn.knownAs_or_of_push hpu with hknown | ⟨hnone, ht⟩
    · rw [(hknown.push msgs).2, hr _ hs hknown] at hread
      exact ⟨hknown, (takeWhile_append_eq_iff hne).mp hread⟩
    · -- the first message is the handshake, so that at least one is missing
      rw [hnone, ht, nil_append] at hread
      have hl := congrArg length hread
      have hle : (msgs.tail.takeWhile wire.fits).length ≤ msgs.tail.length :=
        (takeWhile_sublist wire.fits).length_le
      have hp := length_pos_iff.mpr hne
      rw [length_tail] at hle
      omega
  · intro h
    obtain ⟨hknown, hfi⟩ := h
    have hpu := hknown.push msgs
    refine ⟨?_, ?_⟩
    · rw [Conn.registered, Conn.far_of_knownAs hf hpu.1]
      rfl
    · rw [hr _ hf hpu.1, hr _ hs hknown, hpu.2]
      exact (takeWhile_append_eq_iff hne).mpr hfi

end Delivery

section Transports

variable {wire : Wire} {t t' : Transport} {id : Bytes} {conn : Conn} {msgs : List RaftMessage}

theorem Transport.sendAll_eq_ok (hc : t.peers.get? id = some conn)
    (hr : ∀ msg ∈ msgs, msg.receiver = id) (h : t.sendAll msgs = .ok t') :
    t'.peers.get? id = some (conn.push msgs) := by
  induction msgs generalizing t conn with
  | nil =>
    cases h
    rw [hc, Conn.push, append_nil]
  | cons msg msgs ih =>
    have hms : msg.receiver = id := hr msg mem_cons_self
    have hf : t.send msg = .ok { t with peers := t.peers.set id (conn.push [msg]) } := by
      rw [Transport.send, hms, hc]
      rfl
    rw [Transport.sendAll, hf] at h
    have hs : (t.peers.set id (conn.push [msg])).get? id = some (conn.push [msg]) := by
      rw [KeyMap.get?_set, if_pos rfl]
    rw [ih hs (fun m hm => hr m (mem_cons_of_mem _ hm)) h, Conn.push, Conn.push, Conn.push,
      append_assoc, singleton_append]

/-- `Connect` keeps the connection that is there, or dials one. -/
theorem Transport.connect_eq_ok {addr : String} {dial : Except String Unit}
    (h : t.connect id addr dial = .ok t') :
    (∃ conn, t.peers.get? id = some conn ∧ t'.peers.get? id = some conn) ∨
      t.peers.get? id = none ∧ t'.peers.get? id = some { origin := .dialled, sent := [] } := by
  unfold Transport.connect at h
  split at h
  next conn hc =>
    cases h
    exact .inl ⟨conn, hc, hc⟩
  next hnone =>
    split at h
    · cases h
    · cases h
      exact .inr ⟨hnone, by rw [KeyMap.get?_set, if_pos rfl]⟩

end Transports

/-- The peer has registered the connection under the node id, and has read the messages that were
sent. -/
def Delivered (wire : Wire) (nodeID : Bytes) (msgs : List RaftMessage) (before after : Option Conn) : Prop :=
  ∃ conn conn', before = some conn ∧ after = some conn' ∧
    conn'.registered wire = some nodeID ∧ conn'.received wire = conn.received wire ++ msgs

/-- **After `Connect` messages are delivered only over a connection that was there before**, if the peer
knows it by the node id and no message is too large. A connection that `Connect` has dialled
delivers no sequence of messages, since it starts without a handshake. -/
theorem messages_delivered_iff (wire : Wire) (a connected sent : Transport) (id : Bytes) (addr : String)
    (dial : Except String Unit) (msgs : List RaftMessage)
    (hconnect : a.connect id addr dial = .ok connected) (hsend : connected.sendAll msgs = .ok sent)
    (hreceiver : ∀ msg ∈ msgs, msg.receiver = id) (hne : msgs ≠ []) (hmsgs : ∀ msg ∈ msgs, wire.Faithful msg)
    (hearlier : ∀ conn, a.peers.get? id = some conn → ∀ msg ∈ conn.sent, wire.Faithful msg) :
    Delivered wire a.nodeID msgs (connected.peers.get? id) (sent.peers.get? id) ↔
      ∃ conn, a.peers.get? id = some conn ∧ conn.KnownAs wire a.nodeID ∧
        ∀ msg ∈ conn.payload ++ msgs, wire.fits msg := by
  -- what `Delivered` says for the connection that `Connect` leaves
  have hd : ∀ conn, connected.peers.get? id = some conn → (∀ msg ∈ conn.sent, wire.Faithful msg) →
      (Delivered wire a.nodeID msgs (connected.peers.get? id) (sent.peers.get? id) ↔
        conn.KnownAs wire a.nodeID ∧ ∀ msg ∈ conn.payload ++ msgs, wire.fits msg) := by
    intro conn hc hf
    rw [← Conn.received_push_iff hf hmsgs hne, hc, Transport.sendAll_eq_ok hc hreceiver hsend]
    constructor
    · intro h
      obtain ⟨_, _, hb, ha, hdo⟩ := h
      cases hb
      cases ha
      exact hdo
    · intro h
      exact ⟨conn, conn.push msgs, rfl, rfl, h⟩
  rcases Transport.connect_eq_ok hconnect with ⟨conn, hc, hs⟩ | ⟨hnone, hnew⟩
  · rw [hd conn hs (hearlier conn hc)]
    constructor
    · intro h
      exact ⟨conn, hc, h⟩
    · intro h
      obtain ⟨conn', hc', h⟩ := h
      rw [hc] at hc'
      cases hc'
      exact h
  · rw [hd _ hnew (by simp)]
    constructor
    · intro h
      cases h.1.1
    · intro h
      obtain ⟨_, hc, _⟩ := h
      rw [hnone] at hc
      cases hc

/-! ### Two nodes -/

/-- The text of a request for a vote from `node-1` to `node-2`, and of the empty append that follows. -/
def voteText : Bytes := utf8
  "\x7b\"type\":1,\"from\":\"node-1\",\"to\":\"node-2\",\"term\":1,\"log_index\":0,\"log_term\":0,\"commit\":0,\"success\":false,\"reject\":false\x7d"

def appendText : Bytes := utf8
  "\x7b\"type\":3,\"from\":\"node-1\",\"to\":\"node-2\",\"term\":1,\"log_index\":0,\"log_term\":0,\"commit\":0,\"success\":false,\"reject\":false\x7d"

def plainMessage (type : UInt8) : RaftMessage :=
  { type, sender := utf8 "node-1", receiver := utf8 "node-2", term := 1, logIndex := 0, logTerm := 0
    commit := 0, entries := [], success := false, reject := false, data := [] }

def twoTexts : Wire where
  encode msg := if msg.type = 1 then voteText else appendText
  decode text :=
    if text = voteText then some (plainMessage 1)
    else if text = appendText then some (plainMessage 3) else none

def nodeOne : Transport := { nodeID := utf8 "node-1", peers := .empty }

theorem faithful_vote : twoTexts.Faithful (plainMessage 1) where
  roundTrip := by decide +kernel
  truncated := by decide +kernel
  printable := by decide +kernel

theorem faithful_append : twoTexts.Faithful (plainMessage 3) where
  roundTrip := by decide +kernel
  truncated := by decide +kernel
  printable := by decide +kernel

/-- The two messages, with the first header in two parts. -/
theorem receiveAll_stream_two :
    let stream := Conn.stream twoTexts { origin := .dialled, sent := [plainMessage 1, plainMessage 3] }
    receiveAll twoTexts 2 [stream.take 3, stream.drop 3] =
      some ([some (plainMessage 1), some (plainMessage 3)], []) :=
  receiveAll_stream twoTexts { origin := .dialled, sent := [plainMessage 1, plainMessage 3] }
    (by decide +kernel) _ (by decide +kernel) (by decide +kernel)

/-- Neither of the two messages of `node-1` is delivered after the first `Connect`. -/
theorem messages_delivered_iff_two :
    ¬ Delivered twoTexts nodeOne.nodeID [plainMessage 1, plainMessage 3]
        (some { origin := .dialled, sent := [] })
        (some { origin := .dialled, sent := [plainMessage 1, plainMessage 3] }) := by
  have hi := messages_delivered_iff twoTexts nodeOne _ _ (utf8 "node-2") "10.0.0.2:4002" (.ok ())
    [plainMessage 1, plainMessage 3] rfl rfl (by decide +kernel) (by simp)
    (by
      intro msg hm
      rcases mem_pair.mp hm with rfl | rfl
      · exact faithful_vote
      · exact faithful_append)
    (fun _ hc => by cases hc)
  intro h
  obtain ⟨_, hc, _⟩ := hi.mp h
  cases hc

/-- `node-1` connects to `node-2` and sends two messages: `node-2` takes the first one for a node id and
reads the second one only. -/
theorem first_message_lost : ∃ connected sent conn,
      nodeOne.connect (utf8 "node-2") "10.0.0.2:4002" (.ok ()) = .ok connected ∧
      connected.sendAll [plainMessage 1, plainMessage 3] = .ok sent ∧
      sent.peers.get? (utf8 "node-2") = some conn ∧
      conn.registered twoTexts = some voteText ∧ voteText ≠ nodeOne.nodeID ∧
      conn.received twoTexts = [plainMessage 3] := by
  refine ⟨_, _, _, rfl, rfl, rfl, ?_, ?_, ?_⟩
  · decide +kernel
  · decide +kernel
  · decide +kernel

end Bib.Cluster
