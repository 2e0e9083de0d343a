import Bib.Lib.Run
import Bib.P2p.PubSubMessage

/-!
# Bib.P2p.PubSub

**Publishing and handling gossip** (`Publish`, `signMessage`, `verifyMessage` and `handleMessages` in
`p2p/pubsub.go`) in a network that an adversary controls: it may deliver any bytes to any node on any topic, but
no signature of an honest peer over a text that the peer has not signed. The topic is not part of the signed
text (`topic_bound_iff`). The libp2p peer identifiers and keys are a parameter.
-/

namespace Bib.P2p.PubSub

open Bib.Domain Bib.Lib Bib.Lib.Json Bib.Lib.Calendar Bib.Lib.Run List
open Bib.Cluster (marshalRaw)

/-! ### Publishing and handling -/

/-- The constants of type `PubSubMessageType`. -/
inductive PubSubMessageType
  | nodeJoin
  | nodeLeave
  | nodeStatus
  | newTopic
  | newDataset
  | topicUpdate
  | deleteDataset

def PubSubMessageType.text : PubSubMessageType → Bytes
  | nodeJoin => utf8 "node_join"
  | nodeLeave => utf8 "node_leave"
  | nodeStatus => utf8 "node_status"
  | newTopic => utf8 "new_topic"
  | newDataset => utf8 "new_dataset"
  | topicUpdate => utf8 "topic_update"
  | deleteDataset => utf8 "delete_dataset"

def topicGlobal : Bytes := utf8 "/bib/global"

def topicNodes : Bytes := utf8 "/bib/nodes"

/-- `PubSubConfig`; the bound on the size is left to libp2p. -/
structure PubSubConfig where
  (messageSignature strictSignature : Bool)
  messageTTL : Int64

/-- `DefaultPubSubConfig`, the only one that `NewPubSub` uses: five minutes. -/
def defaultPubSubConfig : PubSubConfig :=
  { messageSignature := true, strictSignature := true, messageTTL := 300000000000 }

/-- Peers, as libp2p has them. `decode` is `peer.Decode`, `name` the text of an identifier, and
`sign` uses the private key of a peer. An identifier of an honest peer contains its key. What
`decode` accepts is in Base58 or in a multibase; of these only the identity, which begins with a
zero byte, can have a colon or a quotation mark. -/
structure Network where
  (Peer PublicKey : Type)
  [decidableEq : DecidableEq Peer]
  honest : Peer → Prop
  decode : Bytes → Option Peer
  name : Peer → Bytes
  extractPublicKey : Peer → Option PublicKey
  sha256 : Bytes → Bytes
  sign : Peer → Bytes → Bytes
  verify : PublicKey → Bytes → Bytes → Option Bool
  leniency : Leniency
  decode_name : ∀ p, decode (name p) = some p
  nameText : ∀ text p, decode text = some p → NameText text
  name_plain : ∀ p, 0x3a ∉ name p ∧ 0 ∉ name p ∧ validUTF8 (name p)
  sign_ne_nil : ∀ p hash, sign p hash ≠ []
  verify_sign : ∀ p, honest p → ∃ key, extractPublicKey p = some key ∧
    ∀ hash, verify key hash (sign p hash) = some true
  exists_ne : ∀ p : Peer, ∃ q, q ≠ p

instance (net : Network) : DecidableEq net.Peer := net.decidableEq

variable {net : Network}

/-- A call of `Publish`: what `json.Marshal` made of the payload is compact. -/
structure Publication (net : Network) where
  host : net.Peer
  identity : Option net.Peer
  (topic type : Bytes)
  timestamp : Stamp
  payload : Bytes
  marshalled : valid payload ∧ marshalRaw (some payload) = payload

def signMessage (identity : net.Peer) (m : PubSubMessage) : Bytes :=
  net.sign identity (net.sha256 m.content)

def Publication.unsigned (p : Publication net) : PubSubMessage :=
  { type := p.type, senderPeerID := net.name p.host, timestamp := p.timestamp, signature := none
    payload := some p.payload }

def Publication.message (cfg : PubSubConfig) (p : Publication net) : PubSubMessage :=
  match cfg.messageSignature, p.identity with
  | true, some identity => { p.unsigned with signature := some (signMessage identity p.unsigned) }
  | _, _ => p.unsigned

/-- `Publish`: the bytes that go to the topic. -/
def publish (cfg : PubSubConfig) (p : Publication net) : Option Bytes := (p.message cfg).marshal

/-- `verifyMessage`, none for an error. The key is taken from the sender's identifier, and a message without a
signature passes unless signatures are demanded. -/
def verifyMessage (net : Network) (cfg : PubSubConfig) (m : PubSubMessage) : Option Bool :=
  if (m.signature.getD []).length = 0 then some !cfg.strictSignature
  else
    match net.decode m.senderPeerID with
    | none => none
    | some senderID =>
      match net.extractPublicKey senderID with
      | none => none
      | some pubKey => net.verify pubKey (net.sha256 m.content) (m.signature.getD [])

/-- `time.Since`, which does not overflow. -/
def since (now : Int) (t : Stamp) : Int :=
  max (-9223372036854775808) (min (now - t.nanos) 9223372036854775807)

/-- The message is too old or from the future. -/
def expired (cfg : PubSubConfig) (now : Int) (t : Stamp) : Bool :=
  0 < cfg.messageTTL.toInt &&
    (cfg.messageTTL.toInt < since now t || since now t < -cfg.messageTTL.toInt)

structure Delivery (net : Network) where
  receivedFrom : net.Peer
  data : Bytes
  now : Int

/-- One round of `handleMessages` at the node `self`: the message that the handlers of the topic
are called with. -/
def handleMessage (cfg : PubSubConfig) (self : net.Peer) (d : Delivery net) : Option PubSubMessage :=
  if d.receivedFrom = self then none
  else
    match PubSubMessage.unmarshal net.leniency d.data with
    | .error _ => none
    | .ok m =>
      if expired cfg d.now m.timestamp then none
      else if cfg.messageSignature ∧ verifyMessage net cfg m ≠ some true then none
      else some m

/-! ### Runs of the network -/

/-- A call of the handlers of a topic at some node. -/
structure Call (net : Network) where
  node : net.Peer
  topic : Bytes
  message : PubSubMessage

/-- What honest nodes have published, and what they have handled. -/
structure Gossip (net : Network) where
  published : List (Publication net)
  called : List (Call net)

def Gossip.start : Gossip net := ⟨[], []⟩

/-- An honest node publishes, or the adversary lets a node receive something on a topic. -/
inductive GossipEvent (net : Network)
  | publish (p : Publication net)
  | deliver (node : net.Peer) (topic : Bytes) (d : Delivery net)

def gossipStep (cfg : PubSubConfig) (g : Gossip net) : GossipEvent net → Gossip net
  | .publish p =>
    match publish cfg p with
    | none => g
    | some _ => { g with published := g.published ++ [p] }
  | .deliver node topic d =>
    match handleMessage cfg node d with
    | none => g
    | some message => { g with called := g.called ++ [{ node, topic, message }] }

def publications (events : List (GossipEvent net)) : List (Publication net) :=
  events.filterMap fun
    | .publish p => some p
    | .deliver .. => none

/-- A clock between 1970 and 2262, when `UnixNano` does not overflow. -/
def Modern (nanos : Int) : Prop := 0 ≤ nanos ∧ nanos < 9223372036854775808

/-- **The adversary cannot forge**: if the bytes are a message with a valid signature of an honest
peer, this peer has published something with the same signed text. -/
def Unforged (published : List (Publication net)) (data : Bytes) : Prop :=
  ∀ m, PubSubMessage.unmarshal net.leniency data = .ok m →
    ∀ peer, net.honest peer → net.decode m.senderPeerID = some peer →
      ∀ key, net.extractPublicKey peer = some key →
        net.verify key (net.sha256 m.content) (m.signature.getD []) = some true →
          ∃ p ∈ published, p.host = peer ∧ p.unsigned.content = m.content

def Possible (g : Gossip net) : GossipEvent net → Prop
  | .publish _ => True
  | .deliver _ _ d => Modern d.now ∧ Unforged g.published d.data

structure Publication.Says (p : Publication net) (m : PubSubMessage) : Prop where
  type : m.type = p.type
  moment : m.timestamp.nanos = p.timestamp.nanos
  payload : m.payload = some p.payload

/-- What the handlers of the topic were called with in the name of an honest peer, that peer has
published on the topic. -/
def Bound (topic : Bytes) (g : Gossip net) : Prop :=
  ∀ call ∈ g.called, call.topic = topic →
    ∀ peer, net.honest peer → net.decode call.message.senderPeerID = some peer →
      ∃ p ∈ g.published, p.host = peer ∧ p.topic = topic ∧ p.Says call.message

/-- Signatures are made and demanded, and messages expire. -/
structure PubSubConfig.Strict (cfg : PubSubConfig) : Prop where
  messageSignature : cfg.messageSignature = true
  strictSignature : cfg.strictSignature = true
  ttl_pos : 0 < cfg.messageTTL.toInt
  ttl_lt : cfg.messageTTL.toInt < 9223372036854775807

theorem strict_default : defaultPubSubConfig.Strict := ⟨rfl, rfl, by decide, by decide⟩

/-- A publication of an honest node whose signed text can be read in one way only, and which is read
back as it was written. -/
structure Publication.Plain (p : Publication net) : Prop where
  honest : net.honest p.host
  identity : p.identity = some p.host
  type : 0x3a ∉ p.type ∧ validUTF8 p.type
  payload : ∀ c ∈ p.payload.head?, isDigit c = false
  depth : accepts (maxNestingDepth - 1) p.payload
  modern : Modern p.timestamp.nanos
  time : p.timestamp.inRange ∧ p.timestamp.received = p.timestamp

theorem Publication.Plain.separate {p : Publication net} (h : p.Plain) : Separate p.payload := by
  refine ⟨p.marshalled.1, fun c hc => ⟨h.payload c hc, ?_⟩⟩
  have hv := isValue_marshalRaw p.marshalled.1
  rw [p.marshalled.2] at hv
  obtain ⟨c', rest, heq, hs⟩ := hv.head
  rw [heq] at hc
  cases hc
  exact hs

/-! ### A message that is handled -/

section Handled

variable {cfg : PubSubConfig} {node : net.Peer} {d : Delivery net} {m : PubSubMessage}

structure Checked (cfg : PubSubConfig) (node : net.Peer) (d : Delivery net) (m : PubSubMessage) :
    Prop where
  other : d.receivedFrom ≠ node
  read : PubSubMessage.unmarshal net.leniency d.data = .ok m
  fresh : expired cfg d.now m.timestamp = false
  verified : cfg.messageSignature = true → verifyMessage net cfg m = some true

theorem handleMessage_eq_some : handleMessage cfg node d = some m ↔ Checked cfg node d m := by
  constructor
  · intro h
    unfold handleMessage at h
    split at h
    · cases h
    next hother =>
      split at h
      · cases h
      next m' hread =>
        split at h
        · cases h
        next hf =>
          split at h
          · cases h
          next hv =>
            cases h
            refine ⟨hother, hread, Bool.eq_false_iff.mpr hf, fun hs => ?_⟩
            by_contra hne
            exact hv ⟨hs, hne⟩
  · intro h
    have hv : ¬ (cfg.messageSignature = true ∧ verifyMessage net cfg m ≠ some true) :=
      fun hb => hb.2 (h.verified hb.1)
    simp [handleMessage, h.other, h.read, h.fresh, hv]

theorem verify_of_verifyMessage (hs : cfg.strictSignature = true) {peer : net.Peer}
    (hp : net.decode m.senderPeerID = some peer) (h : verifyMessage net cfg m = some true) :
    ∃ key, net.extractPublicKey peer = some key ∧
      net.verify key (net.sha256 m.content) (m.signature.getD []) = some true := by
  unfold verifyMessage at h
  split at h
  · rw [hs] at h
    cases h
  · rw [hp] at h
    simp only at h
    split at h
    · cases h
    next key hk => exact ⟨key, hk, h⟩

/-- Two moments that `UnixNano` does not tell apart are more than 500 years apart. -/
theorem nanos_of_unixNano_eq {t t' : Stamp} {now : Int} (hc : cfg.Strict) (hn : Modern now)
    (ht : Modern t.nanos) (h : unixNano t' = unixNano t) (hf : expired cfg now t' = false) :
    t'.nanos = t.nanos := by
  have hm : t'.nanos % 18446744073709551616 = t.nanos % 18446744073709551616 := by
    have hb : t'.nanos.bmod Int64.size = t.nanos.bmod Int64.size := by
      rw [← Int64.toInt_ofInt, ← Int64.toInt_ofInt]
      exact congrArg Int64.toInt h
    have he := congrArg (· % (Int64.size : Int)) hb
    simp only [Int.bmod_emod] at he
    exact he
  have hf' : since now t' ≤ cfg.messageTTL.toInt ∧ -cfg.messageTTL.toInt ≤ since now t' := by
    simpa [expired, hc.ttl_pos] using hf
  have hlt := hc.ttl_lt
  simp only [since, Modern] at hf' hn ht
  omega

/-- **What is handled in the name of an honest peer says what the peer has published**, on
whichever topic. -/
theorem exists_says_of_checked {published : List (Publication net)} (hc : cfg.Strict)
    (hpl : ∀ p ∈ published, p.Plain) (hn : Modern d.now) (hdata : Unforged published d.data)
    (h : Checked cfg node d m) {peer : net.Peer} (hh : net.honest peer)
    (hpe : net.decode m.senderPeerID = some peer) : ∃ p ∈ published, p.host = peer ∧ p.Says m := by
  obtain ⟨key, hk, hverify⟩ :=
    verify_of_verifyMessage hc.strictSignature hpe (h.verified hc.messageSignature)
  obtain ⟨p, hp, hho, hco⟩ := hdata m h.read peer hh hpe key hk hverify
  have hpp := hpl p hp
  have hna := net.name_plain p.host
  have hs := hpp.separate
  have hpy : m.payload.getD [] = [] ∨ valid (m.payload.getD []) := by
    have hvalid := PubSubMessage.valid_payload h.read
    cases hm : m.payload with
    | none => exact .inl rfl
    | some payload =>
      rw [hm] at hvalid
      exact .inr hvalid
  obtain ⟨ht, -, hnn, hpa⟩ := eq_of_signedText_eq hpp.type.1 ⟨hna.1, hna.2.1⟩
    hs (net.nameText _ _ hpe) hpy hco
  refine ⟨p, hp, hho, ht, nanos_of_unixNano_eq hc hn hpp.modern hnn h.fresh, ?_⟩
  cases hm : m.payload with
  | none =>
    -- a JSON value is not empty
    rw [hm] at hpa
    have hvalid := p.marshalled.1
    rw [← hpa] at hvalid
    cases hvalid
  | some payload =>
    rw [hm] at hpa
    exact congrArg some hpa

end Handled

/-! ### A message that is redirected -/

section Redirected

variable {cfg : PubSubConfig} {p : Publication net}

section

variable (hc : cfg.Strict) (h : p.Plain)
include hc h

theorem message_of_plain :
    p.message cfg = { p.unsigned with signature := some (signMessage p.host p.unsigned) } := by
  simp only [Publication.message, hc.messageSignature, h.identity]

theorem content_message : (p.message cfg).content = p.unsigned.content := by
  rw [message_of_plain hc h]
  rfl

theorem says_message : p.Says (p.message cfg) := by
  rw [message_of_plain hc h]
  exact ⟨rfl, rfl, rfl⟩

theorem timestamp_message : (p.message cfg).timestamp = p.timestamp := by
  rw [message_of_plain hc h]
  rfl

theorem exists_publish : ∃ data, publish cfg p = some data := by
  have hf : format p.timestamp = some p.timestamp.text := if_pos h.time.1
  have hvalid : (p.message cfg).payload.all valid := by
    rw [(says_message hc h).payload]
    exact p.marshalled.1
  rw [publish, PubSubMessage.marshal, if_pos hvalid, timestamp_message hc h, hf]
  exact ⟨_, rfl⟩

theorem unmarshal_publish {data : Bytes} (hdata : publish cfg p = some data) :
    PubSubMessage.unmarshal net.leniency data = .ok (p.message cfg) := by
  have hm := message_of_plain hc h
  have hf : (p.message cfg).fits := by
    rw [hm]
    show accepts (maxNestingDepth - 1) (marshalRaw (some p.payload)) = true
    rw [p.marshalled.2]
    exact h.depth
  have hr : (p.message cfg).received = p.message cfg := by
    have ht := (toValid_eq_self_iff p.type).mpr h.type.2
    have hn := (toValid_eq_self_iff (net.name p.host)).mpr (net.name_plain p.host).2.2
    simp only [hm, PubSubMessage.received, Publication.unsigned, ht, hn, h.time.2, p.marshalled.2]
  rw [PubSubMessage.unmarshal_marshal net.leniency hdata hf, hr]

theorem verifyMessage_message : verifyMessage net cfg (p.message cfg) = some true := by
  obtain ⟨key, hk, hverify⟩ := net.verify_sign p.host h.honest
  have hsi : ((p.message cfg).signature.getD []) = signMessage p.host p.unsigned := by
    rw [message_of_plain hc h]
    rfl
  have hs : (p.message cfg).senderPeerID = net.name p.host := by
    rw [message_of_plain hc h]
    rfl
  have hl : ¬ (signMessage p.host p.unsigned).length = 0 := fun hz =>
    net.sign_ne_nil _ _ (length_eq_zero_iff.mp hz)
  rw [verifyMessage, hsi, if_neg hl, hs, net.decode_name]
  simp only [hk]
  rw [content_message hc h]
  exact hverify _

end

/-- The bytes of a publication, at the moment of its timestamp, from some other peer. -/
def redirect (from_ : net.Peer) (data : Bytes) (p : Publication net) : Delivery net :=
  { receivedFrom := from_, data, now := p.timestamp.nanos }

/-- **What was published is handled wherever it is received.** -/
theorem handleMessage_redirect (hc : cfg.Strict) (h : p.Plain) {data : Bytes}
    (hdata : publish cfg p = some data) {from_ node : net.Peer} (hne : from_ ≠ node) :
    handleMessage cfg node (redirect from_ data p) = some (p.message cfg) := by
  refine handleMessage_eq_some.mpr
    ⟨hne, unmarshal_publish hc h hdata, ?_, fun _ => verifyMessage_message hc h⟩
  have hs : since p.timestamp.nanos p.timestamp = 0 := by simp [since]
  rw [timestamp_message hc h]
  simp only [redirect, expired, hs, Bool.and_eq_false_iff, Bool.or_eq_false_iff, decide_eq_false_iff_not]
  omega

theorem unforged_redirect (hc : cfg.Strict) (h : p.Plain) {data : Bytes}
    (hdata : publish cfg p = some data) {published : List (Publication net)} (hp : p ∈ published) :
    Unforged published data := by
  intro m hread peer _ hpe key _ _
  rw [unmarshal_publish hc h hdata] at hread
  cases hread
  refine ⟨p, hp, ?_, (content_message hc h).symm⟩
  rw [message_of_plain hc h] at hpe
  exact Option.some.inj ((net.decode_name p.host).symm.trans hpe)

end Redirected

/-! ### Whole runs -/

section Runs

variable {cfg : PubSubConfig} {schedule : List (Publication net)}
  {events : List (GossipEvent net)} {topic : Bytes}

/-- The same peer has published the same message. -/
structure Publication.Repeats (q p : Publication net) : Prop where
  host : q.host = p.host
  type : q.type = p.type
  moment : q.timestamp.nanos = p.timestamp.nanos
  payload : q.payload = p.payload

variable {q p : Publication net} {m : PubSubMessage} {g : Gossip net}

theorem Publication.Repeats.says (h : q.Repeats p) (hp : p.Says m) : q.Says m :=
  ⟨hp.type.trans h.type.symm, hp.moment.trans h.moment.symm, by rw [hp.payload, h.payload]⟩

theorem Publication.Says.repeats (hq : q.Says m) (hp : p.Says m) (hh : q.host = p.host) : q.Repeats p :=
  ⟨hh, hq.type.symm.trans hp.type, hq.moment.symm.trans hp.moment,
    Option.some.inj (hq.payload.symm.trans hp.payload)⟩

/-- Whatever is published on another topic was published on this one before. -/
def OnlyOn (topic : Bytes) (schedule : List (Publication net)) : Prop :=
  ∀ before p after, schedule = before ++ p :: after →
    p.topic = topic ∨ ∃ q ∈ before, q.topic = topic ∧ q.Repeats p

theorem OnlyOn.exists_repeats (h : OnlyOn topic schedule) {done : List (Publication net)}
    (hd : done <+: schedule) {p : Publication net} (hp : p ∈ done) :
    ∃ q ∈ done, q.topic = topic ∧ q.Repeats p := by
  obtain ⟨rest, rfl⟩ := hd
  obtain ⟨before, after, rfl⟩ := append_of_mem hp
  rcases h before p (after ++ rest) (by simp) with htopic | ⟨q, hq, hrest⟩
  · exact ⟨p, hp, htopic, rfl, rfl, rfl, rfl⟩
  · exact ⟨q, mem_append_left _ hq, hrest⟩

theorem possible_publish (ps : List (Publication net)) (g : Gossip net) :
    AllSteps (gossipStep cfg) Possible g (ps.map .publish) := by
  induction ps generalizing g with
  | nil => trivial
  | cons p ps ih => exact ⟨trivial, ih _⟩

theorem published_run (hc : cfg.Strict) (hpl : ∀ p ∈ publications events, p.Plain) (g : Gossip net) :
    (events.foldl (gossipStep cfg) g).published = g.published ++ publications events := by
  induction events generalizing g with
  | nil => simp [publications]
  | cons event events ih =>
    have hrest : ∀ p ∈ publications events, p.Plain := by
      intro p hp
      refine hpl p ?_
      rw [publications, ← singleton_append, filterMap_append]
      exact mem_append_right _ hp
    rw [foldl_cons, ih hrest]
    cases event with
    | publish p =>
      obtain ⟨data, hdata⟩ := exists_publish hc (hpl p mem_cons_self)
      simp [gossipStep, hdata, publications]
    | deliver node topic d =>
      have hs : (gossipStep cfg g (.deliver node topic d)).published = g.published := by
        simp only [gossipStep]
        split <;> rfl
      rw [hs]
      rfl

theorem Bound.publish (h : Bound topic g) (p : Publication net) : Bound topic (gossipStep cfg g (.publish p)) := by
  simp only [gossipStep]
  split
  · exact h
  · intro call hcall htopic peer hh hp
    obtain ⟨q, hq, hs⟩ := h call hcall htopic peer hh hp
    exact ⟨q, mem_append_left _ hq, hs⟩

theorem Bound.deliver (h : Bound topic g) (hc : cfg.Strict) (hpl : ∀ p ∈ g.published, p.Plain)
    (htopic : ∀ p ∈ g.published, ∃ q ∈ g.published, q.topic = topic ∧ q.Repeats p)
    {node : net.Peer} {other : Bytes} {d : Delivery net} (hd : Possible g (.deliver node other d)) :
    Bound topic (gossipStep cfg g (.deliver node other d)) := by
  simp only [gossipStep]
  split
  · exact h
  next m hm =>
    intro call hcall hother peer hh hpe
    rcases mem_append.mp hcall with hcall | hcall
    · exact h call hcall hother peer hh hpe
    · cases mem_singleton.mp hcall
      obtain ⟨p, hp, hho, hs⟩ := exists_says_of_checked hc hpl hd.1 hd.2
        (handleMessage_eq_some.mp hm) hh hpe
      obtain ⟨q, hq, hq', hr⟩ := htopic p hp
      exact ⟨q, hq, hr.host.trans hho, hq', hr.says hs⟩

theorem bound_of_onlyOn (hc : cfg.Strict) (hpl : ∀ p ∈ schedule, p.Plain)
    (ho : OnlyOn topic schedule) (he : publications events <+: schedule)
    (hpo : AllSteps (gossipStep cfg) Possible .start events) :
    Bound topic (events.foldl (gossipStep cfg) .start) := by
  induction events using reverseRecOn with
  | nil =>
    intro call hcall
    cases hcall
  | append_singleton events event ih =>
    rw [publications, filterMap_append] at he
    rw [allSteps_append] at hpo
    have hb := (prefix_append _ _).trans he
    have hbo := ih hb hpo.1
    have hpu := published_run hc (fun p hp => hpl p (hb.subset hp)) .start
    rw [foldl_append, foldl_cons]
    cases event with
    | publish p => exact hbo.publish p
    | deliver node other d =>
      refine hbo.deliver hc ?_ ?_ hpo.2.1
      · rw [hpu]
        exact fun p hp => hpl p (hb.subset hp)
      · rw [hpu]
        exact fun p hp => ho.exists_repeats hb hp

/-- The adversary waits until something is published on another topic and sends it on. -/
theorem exists_redirected (hc : cfg.Strict) {done : List (Publication net)}
    (hpl : ∀ p ∈ done, p.Plain) {p : Publication net} (hp : p ∈ done) (topic : Bytes) :
    ∃ events, publications events = done ∧ AllSteps (gossipStep cfg) Possible .start events ∧
      (events.foldl (gossipStep cfg) .start).published = done ∧
      ∃ node, ⟨node, topic, p.message cfg⟩ ∈ (events.foldl (gossipStep cfg) .start).called := by
  obtain ⟨data, hdata⟩ := exists_publish hc (hpl p hp)
  obtain ⟨from_, hf⟩ := net.exists_ne p.host
  let deliver : GossipEvent net := .deliver p.host topic (redirect from_ data p)
  have hpul : publications (done.map .publish) = done := by
    rw [publications, filterMap_map]
    exact filterMap_some
  have hpu : ((done.map .publish).foldl (gossipStep cfg) .start).published = done := by
    rw [published_run hc (by rwa [hpul]), hpul]
    rfl
  have hall : publications (done.map .publish ++ [deliver]) = done := by
    rw [publications, filterMap_append, ← publications, hpul]
    exact append_nil done
  refine ⟨done.map .publish ++ [deliver], hall, ?_, ?_, p.host, ?_⟩
  · refine allSteps_append.mpr ⟨possible_publish done _, ⟨(hpl p hp).modern, ?_⟩, trivial⟩
    rw [hpu]
    exact unforged_redirect hc (hpl p hp) hdata hp
  · rw [published_run hc (by rwa [hall]), hall]
    rfl
  · rw [foldl_append, foldl_cons]
    simp only [deliver, gossipStep, handleMessage_redirect hc (hpl p hp) hdata hf]
    exact mem_append_right _ mem_cons_self

/-- **Gossip is bound to a topic exactly if whatever is published on another topic was published on
this one before.** -/
theorem topic_bound_iff (hcfg : cfg.Strict) (hplain : ∀ p ∈ schedule, p.Plain) (topic : Bytes) :
    (∀ events, publications events <+: schedule → AllSteps (gossipStep cfg) Possible .start events →
        Bound topic (events.foldl (gossipStep cfg) .start)) ↔ OnlyOn topic schedule := by
  constructor
  · intro hb before p after hs
    have hd : before ++ [p] <+: schedule := ⟨after, by simp [hs]⟩
    have hpl' : ∀ q ∈ before ++ [p], q.Plain := fun q hq => hplain q (hd.subset hq)
    have hp : p ∈ before ++ [p] := by simp
    obtain ⟨events, hpul, hpo, hpu, node, hcall⟩ := exists_redirected hcfg hpl' hp topic
    have hse : net.decode (p.message cfg).senderPeerID = some p.host := by
      rw [message_of_plain hcfg (hpl' p hp)]
      exact net.decode_name p.host
    obtain ⟨q, hq, hh, htopic, hsa⟩ := hb events (hpul ▸ hd) hpo _ hcall
      rfl p.host (hpl' p hp).honest hse
    rw [hpu] at hq
    rcases mem_append.mp hq with hq | hq
    · exact .inr ⟨q, hq, htopic, hsa.repeats (says_message hcfg (hpl' p hp)) hh⟩
    · cases mem_singleton.mp hq
      exact .inl htopic
  · intro ho events he hpo
    exact bound_of_onlyOn hcfg hplain ho he hpo

end Runs

/-! ### The status of a node -/

/-- Two peers with the names `A` and `B`, of which the first is honest. A signature is the hash itself
with the signer in front. -/
def twoPeers : Network where
  Peer := Bool
  PublicKey := Bool
  honest p := p = true
  decode text := if text = [0x41] then some true else if text = [0x42] then some false else none
  name p := if p then [0x41] else [0x42]
  extractPublicKey := some
  sha256 := id
  sign p hash := (if p then 1 else 2) :: hash
  verify key hash signature := some (signature = (if key then 1 else 2) :: hash)
  leniency := .strict
  decode_name := by decide
  nameText := by
    intro text p h
    refine .inr ?_
    split_ifs at h with hA hB
    · rw [hA]
      decide
    · rw [hB]
      decide
  name_plain := by decide
  sign_ne_nil _ _ := List.cons_ne_nil _ _
  verify_sign p _ := ⟨p, rfl, fun hash => congrArg some (decide_eq_true rfl)⟩
  exists_ne := by decide

/-- What `statusBroadcaster` publishes, at the beginning of 2026. -/
def status : Publication twoPeers where
  host := true
  identity := some true
  topic := topicNodes
  type := PubSubMessageType.nodeStatus.text
  timestamp := ⟨1767225630000000000, 0⟩
  payload := utf8 ("\x7b\"peer_id\":\"A\",\"node_mode\":\"full\",\"connected_peers\":1," ++
    "\"dataset_count\":0,\"storage_used_bytes\":0,\"storage_total_bytes\":0," ++
    "\"cpu_usage_percent\":0,\"memory_usage_percent\":0,\"active_jobs\":0," ++
    "\"uptime_since\":\"2026-01-01T00:00:00Z\"\x7d")
  marshalled := by decide +kernel

theorem plain_status : status.Plain where
  honest := rfl
  identity := rfl
  type := by decide
  payload := by decide +kernel
  depth := by decide +kernel
  modern := ⟨by decide, by decide⟩
  time := by decide +kernel

theorem topic_bound_iff_status : (∀ events, publications events <+: [status] →
      AllSteps (gossipStep defaultPubSubConfig) Possible .start events →
        Bound topicGlobal (events.foldl (gossipStep defaultPubSubConfig) .start)) ↔
      OnlyOn topicGlobal [status] :=
  topic_bound_iff strict_default (by simpa using plain_status) topicGlobal

/-- The status, published on `/bib/nodes` only, is handled on `/bib/global`. -/
theorem status_redirected : ∃ events, publications events = [status] ∧
      AllSteps (gossipStep defaultPubSubConfig) Possible .start events ∧
      ¬ Bound topicGlobal (events.foldl (gossipStep defaultPubSubConfig) .start) := by
  have hp : ∀ p ∈ [status], p.Plain := by simpa using plain_status
  obtain ⟨events, hpl, hpo, hpu, node, hcall⟩ :=
    exists_redirected strict_default hp mem_cons_self topicGlobal
  refine ⟨events, hpl, hpo, fun hb => ?_⟩
  have hs : twoPeers.decode (status.message defaultPubSubConfig).senderPeerID = some true :=
    twoPeers.decode_name true
  obtain ⟨q, hq, -, htopic, -⟩ := hb _ hcall rfl true rfl hs
  rw [hpu] at hq
  cases mem_singleton.mp hq
  have hne : topicNodes ≠ topicGlobal := by decide
  exact hne htopic

/-! ### Subscriptions and their readers -/

/-- `p.subs`, and for each reader that was started whether its subscription has been cancelled. -/
structure Subscriptions where
  subs : KeyMap Bytes Nat
  cancelled : List Bool
  started : ∀ topicName reader, subs.get? topicName = some reader → reader < cancelled.length

/-- `Subscribe`, with the errors of libp2p. It starts a reader. -/
def Subscriptions.subscribe (topicName : Bytes) (joinErr subErr : Option Bytes) (p : Subscriptions) :
    Except Bytes Unit × Subscriptions :=
  match p.subs.get? topicName, joinErr, subErr with
  | some _, _, _ => (.ok (), p)
  | none, some err, _ => (.error (utf8 "failed to join topic " ++ topicName ++ utf8 ": " ++ err), p)
  | none, none, some err =>
    (.error (utf8 "failed to subscribe to topic " ++ topicName ++ utf8 ": " ++ err), p)
  | none, none, none =>
    (.ok (),
      { subs := p.subs.set topicName p.cancelled.length
        cancelled := p.cancelled ++ [false]
        started := fun _ _ h => by
          rw [length_append]
          rcases KeyMap.get?_set_eq_some_iff.mp h with ⟨-, rfl⟩ | ⟨-, h⟩
          · exact Nat.lt_succ_self _
          · exact Nat.lt_succ_of_lt (p.started _ _ h) })

/-- `Unsubscribe`: the subscription is cancelled, and its reader is not told. -/
def Subscriptions.unsubscribe (topicName : Bytes) (p : Subscriptions) : Subscriptions where
  subs := p.subs.delete topicName
  cancelled := (p.subs.get? topicName).elim p.cancelled fun reader => p.cancelled.set reader true
  started _ _ h := by
    have hlt := p.started _ _ (KeyMap.get?_delete_eq_some_iff.mp h).2
    cases p.subs.get? topicName with
    | none => exact hlt
    | some _ => rwa [Option.elim_some, length_set]

/-- What `Next` returns, none for an error, and whether the context of the node has ended by then. -/
structure Received (net : Network) where
  next : Option (Delivery net)
  ended : Bool

/-- The first rounds of `handleMessages`: the messages handled so far, or none if the loop has returned. -/
def handleMessages (cfg : PubSubConfig) (self : net.Peer) (received : Nat → Received net) :
    Nat → Option (List PubSubMessage)
  | 0 => some []
  | n + 1 =>
    match handleMessages cfg self received n with
    | none => none
    | some handled =>
      match (received n).next with
      | none => if (received n).ended then none else some handled
      | some d => some (handled ++ (handleMessage cfg self d).toList)

/-- **The reader of a subscription ends exactly if `Next` fails after the context of the node has ended.** A
cancelled subscription is not told from any other error. -/
theorem reader_ends_iff (cfg : PubSubConfig) (self : net.Peer) (received : Nat → Received net) :
    (∃ n, handleMessages cfg self received n = none) ↔
      ∃ n, (received n).next = none ∧ (received n).ended = true := by
  constructor
  · rintro ⟨n, hn⟩
    induction n with
    | zero => cases hn
    | succ n ih =>
      rw [handleMessages] at hn
      split at hn
      next hnone => exact ih hnone
      · split at hn
        next hnext =>
          refine ⟨n, hnext, ?_⟩
          by_contra he
          rw [if_neg he] at hn
          cases hn
        · cases hn
  · rintro ⟨n, hnext, he⟩
    refine ⟨n + 1, ?_⟩
    rw [handleMessages]
    split
    · rfl
    · rw [hnext]
      exact if_pos he

/-- `Next` gives nothing to the reader of a cancelled subscription. -/
def Subscriptions.Serves (p : Subscriptions) (reader : Nat) (received : Nat → Received net) : Prop :=
  p.cancelled[reader]? = some true → ∀ n, (received n).next = none

/-- **After `Unsubscribe` the reader goes round without end**, at a node that goes on. -/
theorem handleMessages_unsubscribe {cfg : PubSubConfig} {self : net.Peer} {p : Subscriptions} {topicName : Bytes}
    {reader : Nat} {received : Nat → Received net} (h : p.subs.get? topicName = some reader)
    (hs : (p.unsubscribe topicName).Serves reader received) (he : ∀ n, (received n).ended = false) (n : Nat) :
    handleMessages cfg self received n = some [] := by
  have hnext := hs (by simp [Subscriptions.unsubscribe, h, p.started _ _ h])
  induction n with
  | zero => rfl
  | succ n ih => simp [handleMessages, ih, hnext, he]

def noSubscriptions : Subscriptions := ⟨.empty, [], fun _ _ h => by cases h⟩

/-- The node has subscribed to a topic and unsubscribed again: the loop never ends. -/
theorem cancelled_reader_runs :
    let p := (noSubscriptions.subscribe topicNodes none none).2.unsubscribe topicNodes
    let received : Nat → Received twoPeers := fun _ => ⟨none, false⟩
    p.cancelled = [true] ∧ p.Serves 0 received ∧
      ¬ ∃ n, handleMessages defaultPubSubConfig status.host received n = none := by
  refine ⟨by decide +kernel, fun _ _ => rfl, ?_⟩
  rintro ⟨n, hn⟩
  have h : (noSubscriptions.subscribe topicNodes none none).2.subs.get? topicNodes = some 0 := by decide +kernel
  rw [handleMessages_unsubscribe h (fun _ _ => rfl) fun _ => rfl] at hn
  cases hn

end Bib.P2p.PubSub
