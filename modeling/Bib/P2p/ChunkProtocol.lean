import Bib.P2p.Protocol
import Bib.P2p.Transfer

/-!
# Bib.P2p.ChunkProtocol

**Chunks over the data protocol** (`handleGetChunk` in `p2p/protocol.go`, `GetChunk` in
`p2p/protocol_client.go`, `verifyChunk` in `p2p/transfer.go`). The content of a chunk is tagged `json:"-"`, so
it is in no message, and `verifyChunk` refuses a chunk without content (`verifyChunk_getChunk`).
`getChunk_exchange` says what is received from a peer that has the chunk.
-/

namespace Bib.P2p

open Bib.Lib Bib.Lib.Json Bib.Domain List
open Option (bind_eq_bind bind_some)
open Bib.Cluster (marshalRaw nullText)

/-! ### Chunks and requests as JSON -/

/-- `Chunk` with Go's own types: strings are bytes and integers have 64 bits. -/
structure WireChunk where
  (id datasetID versionID : Bytes)
  index : Int64
  hash : Bytes
  size : Int64
  (status storagePath data : Bytes)
  deriving DecidableEq

def WireChunk.zero : WireChunk := ⟨[], [], [], 0, [], 0, [], [], []⟩

/-- The members of a `Chunk`; an empty storage path is omitted. -/
def WireChunk.members (c : WireChunk) : List (Text × Text) :=
  [(quote (utf8 "id"), quote c.id), (quote (utf8 "dataset_id"), quote c.datasetID),
    (quote (utf8 "version_id"), quote c.versionID), (quote (utf8 "index"), intText c.index.toInt),
    (quote (utf8 "hash"), quote c.hash), (quote (utf8 "size"), intText c.size.toInt),
    (quote (utf8 "status"), quote c.status)] ++
    if c.storagePath = [] then [] else [(quote (utf8 "storage_path"), quote c.storagePath)]

def chunkFields : List (StructField WireChunk) :=
  [stringField (utf8 "id") fun id c => { c with id },
    stringField (utf8 "dataset_id") fun datasetID c => { c with datasetID },
    stringField (utf8 "version_id") fun versionID c => { c with versionID },
    intField (utf8 "index") fun n c => { c with index := Int64.ofInt n },
    stringField (utf8 "hash") fun hash c => { c with hash },
    intField (utf8 "size") fun n c => { c with size := Int64.ofInt n },
    stringField (utf8 "status") fun status c => { c with status },
    stringField (utf8 "storage_path") fun storagePath c => { c with storagePath }]

/-- `makePayload` of a chunk; a nil chunk is `null`. -/
def chunkPayload : Option WireChunk → Bytes
  | none => nullText
  | some c => objectText c.members

/-- The struct `handleGetChunk` reads its request into. -/
structure ChunkRequest where
  datasetID : Bytes
  chunkIndex : Int64

def chunkRequestFields : List (StructField ChunkRequest) :=
  [stringField (utf8 "dataset_id") fun datasetID r => { r with datasetID },
    intField (utf8 "chunk_index") fun n r => { r with chunkIndex := Int64.ofInt n }]

/-- The members of the map `GetChunk` makes its payload of, in the order of their keys. -/
def ChunkRequest.members (r : ChunkRequest) : List (Text × Text) :=
  [(quote (utf8 "chunk_index"), intText r.chunkIndex.toInt),
    (quote (utf8 "dataset_id"), quote r.datasetID)]

/-! ### The handler -/

/-- The callback `onGetChunk`; it may return a nil chunk. -/
abbrev ChunkProvider := Bytes → Int64 → Except Bytes (Option WireChunk)

def chunkMessage (chunk : Option WireChunk) : Message :=
  { type := utf8 "chunk", requestID := [], payload := some (chunkPayload chunk), error := none }

def handleGetChunk (jsonText : DecodeError → Bytes) (onGetChunk : Option ChunkProvider) : MessageHandler := fun msg =>
  match unmarshal chunkRequestFields ⟨[], 0⟩ (msg.payload.getD []) with
  | .error e => .error (jsonText e)
  | .ok req =>
    match onGetChunk with
    | none => .error (utf8 "chunk not found")
    | some provider =>
      match provider req.datasetID req.chunkIndex with
      | .error text => .error text
      | .ok chunk => .ok (some (chunkMessage chunk))

/-! ### The client -/

def getChunkMessage (r : ChunkRequest) : Message :=
  { type := utf8 "get_chunk", requestID := [], payload := some (objectText r.members)
    error := none }

inductive GetChunkError
  | request (err : ClientError)
  | decode (err : DecodeError)
  deriving DecidableEq

def getChunk (out : Outgoing) (r : ChunkRequest) (peer : Bytes → Stream) : Except GetChunkError WireChunk :=
  match sendRequest out (getChunkMessage r) peer with
  | .error e => .error (.request e)
  | .ok resp =>
    match unmarshal chunkFields .zero (resp.payload.getD []) with
    | .error e => .error (.decode e)
    | .ok chunk => .ok chunk

def sha256Hex (sha256 : Bytes → Bytes) (data : Bytes) : Bytes := utf8 (hexEncode (sha256 data))

def WireChunk.verifyChunk (sha256 : Bytes → Bytes) : Option WireChunk → Bool
  | none => false
  | some chunk => verifyData (sha256Hex sha256) chunk.data chunk.hash

/-! ### No content comes back -/

variable {c : WireChunk} {out : Outgoing} {r : ChunkRequest}

theorem data_of_unmarshal {text : Bytes}
    (h : unmarshal chunkFields .zero text = .ok c) : c.data = [] := by
  refine unmarshal_keeps (P := fun c => c.data = []) ?_ h rfl
  intro field hf
  simp only [chunkFields, mem_cons, not_mem_nil, or_false] at hf
  rcases hf with rfl | rfl | rfl | rfl | rfl | rfl | rfl | rfl
  all_goals
    apply StructField.Keeps.keepsValid
    exact orNull_keeps _ _ fun _ _ hc => hc

/-- **No chunk that `GetChunk` returns has content**, whatever the peer answers. -/
theorem data_of_getChunk {peer : Bytes → Stream} (h : getChunk out r peer = .ok c) : c.data = [] := by
  unfold getChunk at h
  split at h
  · cases h
  · split at h
    · cases h
    next chunk hread =>
      cases h
      exact data_of_unmarshal hread

/-- **So none is accepted.** -/
theorem verifyChunk_getChunk (sha256 : Bytes → Bytes) {out : Outgoing} {r : ChunkRequest}
    {peer : Bytes → Stream} {c : WireChunk} (h : getChunk out r peer = .ok c) :
    WireChunk.verifyChunk sha256 (some c) = false := by
  simp [WireChunk.verifyChunk, data_of_getChunk h]

/-! ### What is read back -/

def WireChunk.received (c : WireChunk) : WireChunk :=
  { id := toValid c.id, datasetID := toValid c.datasetID, versionID := toValid c.versionID
    index := c.index, hash := toValid c.hash, size := c.size, status := toValid c.status
    storagePath := toValid c.storagePath, data := [] }

theorem WireChunk.foldlM_members (c : WireChunk) :
    c.members.foldlM (setMember chunkFields) .zero = some c.received := by
  rw [WireChunk.members, foldlM_append]
  simp only [foldlM_cons, foldlM_nil, bind_eq_bind]
  rw [setMember_string (utf8 "id") (by decide) rfl, bind_some,
    setMember_string (utf8 "dataset_id") (by decide) rfl, bind_some,
    setMember_string (utf8 "version_id") (by decide) rfl, bind_some,
    setMember_int (utf8 "index") (by decide) rfl, bind_some,
    setMember_string (utf8 "hash") (by decide) rfl, bind_some,
    setMember_int (utf8 "size") (by decide) rfl, bind_some,
    setMember_string (utf8 "status") (by decide) rfl, bind_some, Option.pure_def,
    bind_some, Int64.ofInt_toInt, Int64.ofInt_toInt]
  split
  next hp =>
    simp [WireChunk.received, WireChunk.zero, hp]
    rfl
  · rw [foldlM_cons, setMember_string (utf8 "storage_path") (by decide) rfl]
    rfl

theorem ChunkRequest.foldlM_members (r : ChunkRequest) :
    r.members.foldlM (setMember chunkRequestFields) ⟨[], 0⟩ =
      some { r with datasetID := toValid r.datasetID } := by
  rw [ChunkRequest.members, foldlM_cons, setMember_int (utf8 "chunk_index") (by decide) rfl,
    bind_eq_bind, bind_some, foldlM_cons,
    setMember_string (utf8 "dataset_id") (by decide) rfl, Int64.ofInt_toInt]
  rfl

/-! ### Payloads without nesting -/

/-- Every value is a string or an integer. -/
def IsFlat (members : List (Text × Text)) : Prop :=
  ∀ m ∈ members, (∃ name, m.1 = quote name) ∧ ((∃ text, m.2 = quote text) ∨ ∃ n, m.2 = intText n)

theorem WireChunk.isFlat_members (c : WireChunk) : IsFlat c.members := by
  intro m hm
  simp only [WireChunk.members, mem_append, mem_cons, not_mem_nil, or_false] at hm
  rcases hm with (rfl | rfl | rfl | rfl | rfl | rfl | rfl) | hm
  case inr =>
    split at hm
    · cases hm
    · rw [mem_singleton] at hm
      subst hm
      exact ⟨⟨_, rfl⟩, .inl ⟨_, rfl⟩⟩
  all_goals
    refine ⟨⟨_, rfl⟩, ?_⟩
    first | exact .inl ⟨_, rfl⟩ | exact .inr ⟨_, rfl⟩

theorem ChunkRequest.isFlat_members (r : ChunkRequest) : IsFlat r.members := by
  intro m hm
  simp only [ChunkRequest.members, mem_cons, not_mem_nil, or_false] at hm
  rcases hm with rfl | rfl
  · exact ⟨⟨_, rfl⟩, .inr ⟨_, rfl⟩⟩
  · exact ⟨⟨_, rfl⟩, .inl ⟨_, rfl⟩⟩

section Flat

variable {members : List (Text × Text)}

theorem IsFlat.isMember (h : IsFlat members) : ∀ m ∈ members, IsMember 0 m := by
  intro m hm
  obtain ⟨key, value⟩ := m
  obtain ⟨⟨name, rfl⟩, ⟨text, rfl⟩ | ⟨n, rfl⟩⟩ := h _ hm
  · exact isMember_quote (isString_quote text).isValue
  · exact isMember_quote (isValue_intText 0 n)

theorem IsFlat.htmlFree (h : IsFlat members) : ∀ m ∈ members, HtmlFree m.1 ∧ HtmlFree m.2 := by
  intro m hm
  obtain ⟨key, value⟩ := m
  obtain ⟨⟨name, rfl⟩, ⟨text, rfl⟩ | ⟨n, rfl⟩⟩ := h _ hm
  · exact ⟨htmlFree_quote name, htmlFree_quote text⟩
  · exact ⟨htmlFree_quote name, htmlFree_intText n⟩

theorem IsFlat.isValue (h : IsFlat members) : IsValue 1 (objectText members) :=
  isValue_objectText h.isMember

theorem IsFlat.marshalRaw (h : IsFlat members) : marshalRaw (some (objectText members)) = objectText members :=
  marshalRaw_of_isValue h.isValue (htmlFree_objectText h.htmlFree)

variable {m : Message}

section

variable (h : IsFlat members) (hm : m.payload = some (objectText members))
include h hm

theorem IsFlat.valid_payload : m.payload.all valid := by
  rw [hm]
  exact (h.isValue.mono (by decide)).accepts

theorem IsFlat.unmarshal_marshal {body : Bytes} (hb : m.marshal = some body) :
    Message.unmarshal body = .ok m.received := by
  have hf : m.fits := by
    rw [Message.fits, hm, h.marshalRaw]
    exact (h.isValue.mono (by decide)).accepts
  rw [Message.unmarshal_marshal hb, if_pos hf]

theorem IsFlat.payload_received : m.received.payload = some (objectText members) := by
  rw [Message.received, hm, h.marshalRaw]

end

end Flat

/-! ### A whole exchange -/

/-- The other side of a request: the handler reads it in the pieces `cut` makes of it, and
its answer is delivered in the pieces `deliver` makes of it. -/
def answeredBy (ph : ProtocolHandler) (cut deliver : Bytes → Stream) (wire : Bytes) : Stream :=
  match handleStream ph (cut wire) with
  | none => []
  | some answer => deliver answer

def chunkQuestion (out : Outgoing) (r : ChunkRequest) : Message := out.withID (getChunkMessage r)

/-- The answer with the chunk: it carries the id of the request, as the handler has read it. -/
def chunkAnswer (out : Outgoing) (r : ChunkRequest) (chunk : WireChunk) : Message :=
  { chunkMessage (some chunk) with requestID := toValid (chunkQuestion out r).requestID }

theorem handleStream_getChunk {ph : ProtocolHandler} {provider : ChunkProvider}
    (hph : ph.handlers (utf8 "get_chunk") = some (handleGetChunk ph.jsonText (some provider)))
    {out : Outgoing} {r : ChunkRequest} {chunk : WireChunk}
    (hpr : provider (toValid r.datasetID) r.chunkIndex = .ok (some chunk)) {body : Bytes}
    (hb : (chunkQuestion out r).marshal = some body) (hs : body.length ≤ maxMessageSize)
    {stream : Stream} (hf : stream.flatten = frame body) :
    handleStream ph stream = writeMessage (chunkAnswer out r chunk) := by
  have hw : (chunkQuestion out r).type = utf8 "get_chunk" ∧
      (chunkQuestion out r).payload = some (objectText r.members) := by
    unfold chunkQuestion Outgoing.withID
    split <;> exact ⟨rfl, rfl⟩
  obtain ⟨ht, hp⟩ := hw
  have hread : readMessage stream = .ok (chunkQuestion out r).received := by
    rw [readMessage_of_flatten hs hf, r.isFlat_members.unmarshal_marshal hp hb]
  have ht' : (chunkQuestion out r).received.type = utf8 "get_chunk" := by
    show toValid (chunkQuestion out r).type = utf8 "get_chunk"
    rw [ht]
    decide
  have hr : unmarshal chunkRequestFields ⟨[], 0⟩ (objectText r.members) =
      .ok { r with datasetID := toValid r.datasetID } :=
    unmarshal_eq_ok (by decide) r.isFlat_members.isMember r.foldlM_members
  have hh : handleGetChunk ph.jsonText (some provider) (chunkQuestion out r).received =
      .ok (some (chunkMessage (some chunk))) := by
    rw [handleGetChunk, r.isFlat_members.payload_received hp, Option.getD_some, hr]
    simp [hpr]
  rw [handleStream, hread]
  simp only [ht', hph, hh]
  rfl

/-- What `GetChunk` reads from an answer that has come whole. -/
theorem decodeResponse_chunkAnswer {chunk : WireChunk}
    {body : Bytes} (hb : (chunkAnswer out r chunk).marshal = some body) :
    ∃ resp, decodeResponse body = .ok resp ∧ resp.payload = some (objectText chunk.members) := by
  have hp : (chunkAnswer out r chunk).payload = some (objectText chunk.members) := rfl
  refine ⟨(chunkAnswer out r chunk).received, ?_, ?_⟩
  · rw [decodeResponse, chunk.isFlat_members.unmarshal_marshal hp hb]
    rfl
  · exact chunk.isFlat_members.payload_received hp

section Exchange

variable {ph : ProtocolHandler} {provider : ChunkProvider} {out : Outgoing} {r : ChunkRequest}
  {cut deliver : Bytes → Stream} {chunk : WireChunk} {asked answered : Bytes}

/-- **What a whole exchange gives**: the chunk as JSON carries it if the answer comes whole,
and a decoding error if it comes in any other pieces. -/
theorem getChunk_exchange
    (hph : ph.handlers (utf8 "get_chunk") = some (handleGetChunk ph.jsonText (some provider)))
    (ho : out.openError = none) (hsn : out.writeError = none)
    (hc : ∀ wire, (cut wire).flatten = wire) (hd : ∀ wire, (deliver wire).flatten = wire)
    (hne : ∀ wire, ∀ p ∈ deliver wire, p ≠ [])
    (hpr : provider (toValid r.datasetID) r.chunkIndex = .ok (some chunk))
    (hak : writeMessage (chunkQuestion out r) = some asked)
    (has : asked.length ≤ 4 + maxMessageSize)
    (haw : writeMessage (chunkAnswer out r chunk) = some answered)
    (ha : answered.length ≤ 4 + maxMessageSize) : (arrivesWhole answered (deliver answered) →
      getChunk out r (answeredBy ph cut deliver) = .ok chunk.received) ∧
    (¬ arrivesWhole answered (deliver answered) →
      getChunk out r (answeredBy ph cut deliver) = .error (.request (.decode .invalid))) := by
  obtain ⟨question, hq, rfl, -, hqu⟩ := writeMessage_body hak has
  obtain ⟨answer, han, rfl, hpo, hsi⟩ := writeMessage_body haw ha
  have hs : out.sends (getChunkMessage r) := by
    have hvalid := r.isFlat_members.valid_payload (m := getChunkMessage r) rfl
    simp [Outgoing.sends, ho, hsn, hvalid]
  obtain ⟨body, hb, hse⟩ := sendRequest_of_sends hs (answeredBy ph cut deliver)
  have hsa : body = question := Option.some_inj.mp (hb.symm.trans hq)
  have hpe : answeredBy ph cut deliver (frame question) = deliver (frame answer) := by
    rw [answeredBy, handleStream_getChunk hph hpr hq hqu (hc _), haw]
  rw [hsa, hpe] at hse
  refine ⟨fun hw => ?_, fun hpi => ?_⟩
  · obtain ⟨resp, hr, hp⟩ := decodeResponse_chunkAnswer han
    rw [readResponse_of_whole hpo hsi hw, hr] at hse
    have hread : unmarshal chunkFields .zero (objectText chunk.members) = .ok chunk.received :=
      unmarshal_eq_ok (by decide) chunk.isFlat_members.isMember chunk.foldlM_members
    simp [getChunk, hse, hp, hread]
  · rw [readResponse_of_cut (Message.isValue_marshal han) (marshal_head han) hsi
      (hne _) (hd _) hpi] at hse
    simp [getChunk, hse]

end Exchange

/-- **A chunk comes intact, and is accepted if it is honest, exactly if** the answer comes
whole and the chunk has a well-formed hash and no content to lose, and claims none: the hash
of an empty chunk is refused. -/
theorem getChunk_intact_iff (sha256 : Bytes → Bytes) (ph : ProtocolHandler)
    (provider : ChunkProvider)
    (hph : ph.handlers (utf8 "get_chunk") = some (handleGetChunk ph.jsonText (some provider)))
    (out : Outgoing) (hopen : out.openError = none) (hsent : out.writeError = none)
    (r : ChunkRequest) (cut deliver : Bytes → Stream) (hcut : ∀ wire, (cut wire).flatten = wire)
    (hdeliver : ∀ wire, (deliver wire).flatten = wire)
    (hne : ∀ wire, ∀ p ∈ deliver wire, p ≠ []) (chunk : WireChunk)
    (hprovider : provider (toValid r.datasetID) r.chunkIndex = .ok (some chunk))
    (asked : Bytes) (hasked : writeMessage (chunkQuestion out r) = some asked)
    (haskedSize : asked.length ≤ 4 + maxMessageSize) (answered : Bytes)
    (hanswered : writeMessage (chunkAnswer out r chunk) = some answered)
    (hansweredSize : answered.length ≤ 4 + maxMessageSize) :
    (∃ received, getChunk out r (answeredBy ph cut deliver) = .ok received ∧
      received.index = chunk.index ∧ received.hash = chunk.hash ∧ received.data = chunk.data ∧
      (sha256Hex sha256 chunk.data = chunk.hash → WireChunk.verifyChunk sha256 (some received))) ↔
    arrivesWhole answered (deliver answered) ∧ validUTF8 chunk.hash ∧ chunk.data = [] ∧
      chunk.hash ≠ sha256Hex sha256 [] := by
  obtain ⟨hw, hp⟩ := getChunk_exchange hph hopen hsent hcut hdeliver hne hprovider
    hasked haskedSize hanswered hansweredSize
  constructor
  · rintro ⟨received, hg, -, hh, hdata, ha⟩
    have he : received.data = [] := data_of_getChunk hg
    have hr := verifyChunk_getChunk sha256 hg
    have har : arrivesWhole answered (deliver answered) := by
      by_contra h
      rw [hp h] at hg
      cases hg
    rw [hw har] at hg
    cases hg
    rw [← hdata] at ha
    refine ⟨har, (toValid_eq_self_iff _).mp hh, hdata.symm.trans he, ?_⟩
    intro h
    cases ha h.symm
  · rintro ⟨har, hh, hdata, hother⟩
    refine ⟨chunk.received, hw har, rfl, (toValid_eq_self_iff _).mpr hh, hdata.symm, ?_⟩
    intro h
    rw [hdata] at h
    exact absurd h.symm hother

/-- A digest that is the one of SHA-256 for no bytes and for the byte `1`. -/
def digestOfOne (data : Bytes) : Bytes :=
  if data = [] then
    [0xe3, 0xb0, 0xc4, 0x42, 0x98, 0xfc, 0x1c, 0x14, 0x9a, 0xfb, 0xf4, 0xc8, 0x99, 0x6f, 0xb9,
      0x24, 0x27, 0xae, 0x41, 0xe4, 0x64, 0x9b, 0x93, 0x4c, 0xa4, 0x95, 0x99, 0x1b, 0x78, 0x52,
      0xb8, 0x55]
  else
    [0x4b, 0xf5, 0x12, 0x2f, 0x34, 0x45, 0x54, 0xc5, 0x3b, 0xde, 0x2e, 0xbb, 0x8c, 0xd2, 0xb7,
      0xe3, 0xd1, 0x60, 0x0a, 0xd6, 0x31, 0xc3, 0x85, 0xa5, 0xd7, 0xcc, 0xe2, 0x3c, 0x77, 0x85,
      0x45, 0x9a]

/-- The first chunk of a dataset `d`, with the hash of the byte `1`. -/
def firstChunk (data : Bytes) : WireChunk :=
  { id := utf8 "c", datasetID := utf8 "d", versionID := utf8 "v", index := 0
    hash := sha256Hex digestOfOne [1], size := 1, status := utf8 "verified", storagePath := []
    data }

def serving (chunk : WireChunk) : ProtocolHandler :=
  { handlers := fun type =>
      if type = utf8 "get_chunk" then
        some (handleGetChunk (fun _ => utf8 "json") (some fun _ _ => .ok (some chunk)))
      else none
    jsonText := fun _ => utf8 "json" }

def firstRequest : ChunkRequest := ⟨utf8 "d", 0⟩

def onePiece (wire : Bytes) : Stream := if wire = [] then [] else [wire]

theorem onePiece_flatten (wire : Bytes) : (onePiece wire).flatten = wire := by
  unfold onePiece
  split
  next h =>
    rw [h]
    rfl
  · exact append_nil wire

theorem onePiece_ne_nil (wire : Bytes) : ∀ p ∈ onePiece wire, p ≠ [] := by
  intro p hp
  unfold onePiece at hp
  split at hp
  · cases hp
  next h =>
    rw [mem_singleton.mp hp]
    exact h

theorem getChunk_intact_empty : ∃ received, getChunk undisturbed firstRequest
        (answeredBy (serving (firstChunk [])) onePiece onePiece) = .ok received ∧
      received.index = 0 ∧ received.hash = (firstChunk []).hash ∧ received.data = [] ∧
      (sha256Hex digestOfOne [] = (firstChunk []).hash →
        WireChunk.verifyChunk digestOfOne (some received)) :=
  (getChunk_intact_iff digestOfOne (serving (firstChunk [])) (fun _ _ => .ok (some (firstChunk [])))
    rfl undisturbed rfl rfl firstRequest onePiece onePiece onePiece_flatten onePiece_flatten
    onePiece_ne_nil (firstChunk []) rfl
    (frame (objectText (chunkQuestion undisturbed firstRequest).members)) (by decide +kernel)
    (by decide +kernel)
    (frame (objectText (chunkAnswer undisturbed firstRequest (firstChunk [])).members))
    (by decide +kernel) (by decide +kernel)).mpr
    ⟨.inl rfl, by decide +kernel, rfl, by decide +kernel⟩

/-- The peer has a chunk with the content its hash is of; the chunk that is received has
none, and is refused. -/
theorem getChunk_loses_content :
    sha256Hex digestOfOne (firstChunk [1]).data = (firstChunk [1]).hash ∧
      WireChunk.verifyChunk digestOfOne (some (firstChunk [1])) ∧ getChunk undisturbed firstRequest
        (answeredBy (serving (firstChunk [1])) onePiece onePiece) = .ok (firstChunk []) ∧
      WireChunk.verifyChunk digestOfOne (some (firstChunk [])) = false := by
  decide +kernel

end Bib.P2p
