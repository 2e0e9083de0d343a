import Bib.Certs.Certificate
import Bib.Certs.TrustStore
import Bib.Lib.Calls

/-!
# Bib.Certs.Verifier

**Trust on first use** (`internal/certs/tofu_verifier.go`): a certificate is trusted if the trust store has it
for the node, and added if the store does not know the node. `IsTrusted` and `Add` take the lock one after the
other, and `Add` overwrites what it finds. So two first connections with different certificates can both be told
that they are trusted; `trust_stays` is for runs without this.
-/

namespace Bib.Certs

open Bib.Domain Bib.Lib List Table

/-! ### Verification -/

structure CertInfo where
  (fingerprint subject issuer : String)
  (notBefore notAfter : Time)
  isCA : Bool
  pem : Bytes
  deriving DecidableEq

def CertCodec.parseCertInfo (codec : CertCodec) (pemData : Bytes) : Except String CertInfo :=
  match codec.decode pemData with
  | .error err => .error err
  | .ok cert =>
    .ok
      { fingerprint := codec.fingerprint cert, subject := cert.subject, issuer := cert.issuer
        notBefore := cert.notBefore, notAfter := cert.notAfter, isCA := cert.isCA, pem := pemData }

structure VerifyResult where
  trusted : Bool := false
  newTrust : Bool := false
  node : Option TrustedNode := none
  error : String := ""
  fingerprintMismatch : Bool := false
  deriving DecidableEq

def isSpace (c : Char) : Bool :=
  let n := c.toNat
  (0x09 ≤ n && n ≤ 0x0d) || n = 0x20 || n = 0x85 || n = 0xa0 || n = 0x1680 ||
    (0x2000 ≤ n && n ≤ 0x200a) || n = 0x2028 || n = 0x2029 || n = 0x202f || n = 0x205f || n = 0x3000

/-- What `promptTrust` makes of the line that it reads, if it can read one. No letter other than
the ASCII ones has `y`, `e` or `s` as its lower case. -/
def promptTrust : Option String → Bool
  | none => false
  | some response =>
    let trimmed := ((response.toList.map Char.toLower).dropWhile isSpace).rdropWhile isSpace
    trimmed = "y".toList || trimmed = "yes".toList

/-- Which of the functions is called, with `AutoTrust` of the verifier. -/
inductive VerifyMode
  | verify (autoTrust : Bool)
  | withCallback
  deriving DecidableEq

/-- The arguments of `Verify` and `VerifyWithCallback`. -/
structure VerifyArgs where
  mode : VerifyMode
  (nodeID address : String)
  certPEM : Bytes
  deriving DecidableEq

structure TrustInput where
  now : Time
  outcome : WriteOutcome
  (fault response : Option String)
  accepted : Bool

def VerifyMode.decide (input : TrustInput) : VerifyMode → Bool
  | verify autoTrust => autoTrust || promptTrust input.response
  | withCallback => input.accepted

def VerifyMode.refusal : VerifyMode → String
  | verify _ => "trust rejected by user"
  | withCallback => "trust rejected"

def VerifyArgs.node (args : VerifyArgs) (info : CertInfo) : TrustedNode :=
  { nodeID := args.nodeID, fingerprint := info.fingerprint, certificate := args.certPEM
    firstSeen := zeroTime, lastSeen := zeroTime, nodeAlias := "", address := args.address
    trustMethod := .tofu, pinnedAt := none, verified := false, notes := "" }

/-- `Add`, and what is returned after it. -/
def VerifyArgs.trust (args : VerifyArgs) (info : CertInfo) (input : TrustInput)
    (store : TrustStore) : (VerifyResult × Option String) × TrustStore :=
  let added := store.add input.now input.outcome (args.node info)
  match added.1 with
  | .error err => (({ error := err }, some err), added.2)
  | .ok () =>
    (({ trusted := true, newTrust := true, node := some (store.dated input.now (args.node info)) },
      none), added.2)

/-- `Verify` and `VerifyWithCallback`, not interrupted: the result and the error. -/
def VerifyArgs.verify (codec : CertCodec) (args : VerifyArgs) (input : TrustInput)
    (store : TrustStore) : (VerifyResult × Option String) × TrustStore :=
  match codec.parseCertInfo args.certPEM with
  | .error err => (({ error := err }, some err), store)
  | .ok info =>
    match store.isTrusted args.nodeID info.fingerprint with
    | .error err => (({ error := err, fingerprintMismatch := true }, some err), store)
    | .ok true =>
      let store' := (store.updateLastSeen input.now input.outcome args.nodeID).2
      (({ trusted := true, node := store'.nodes.find? args.nodeID }, none), store')
    | .ok false =>
      if args.mode.decide input then args.trust info input store
      else (({ error := args.mode.refusal }, none), store)

/-! ### Calls that run at the same time -/

inductive TrustRequest
  | verify (args : VerifyArgs)
  | remove (nodeID : String)
  deriving DecidableEq

inductive TrustPc
  | start
  /-- The certificate is trusted; `UpdateLastSeen` follows. -/
  | touching (info : CertInfo)
  | fetching (info : CertInfo)
  /-- The node was unknown and is to be trusted; `Add` follows. -/
  | adding (info : CertInfo)
  | returned (result : VerifyResult) (err : Option String)
  | removed (result : Except String Unit)
  deriving DecidableEq

structure TrustCall where
  request : TrustRequest
  pc : TrustPc
  deriving DecidableEq

/-- The beginning of a verification, up to `IsTrusted` and the question that may follow. -/
def VerifyArgs.check (codec : CertCodec) (args : VerifyArgs) (input : TrustInput) (store : TrustStore) : TrustPc :=
  match codec.parseCertInfo args.certPEM with
  | .error err => .returned { error := err } (some err)
  | .ok info =>
    match store.isTrusted args.nodeID info.fingerprint with
    | .error err => .returned { error := err, fingerprintMismatch := true } (some err)
    | .ok true => .touching info
    | .ok false =>
      if args.mode.decide input then .adding info
      else .returned { error := args.mode.refusal } none

open VerifyArgs (check verify)

def VerifyArgs.step (codec : CertCodec) (args : VerifyArgs) (input : TrustInput)
    (store : TrustStore) : TrustPc → TrustPc × TrustStore
  | .start => (args.check codec input store, store)
  | .touching info => (.fetching info, (store.updateLastSeen input.now input.outcome args.nodeID).2)
  | .fetching _ => (.returned { trusted := true, node := store.nodes.find? args.nodeID } none, store)
  | .adding info =>
    let added := args.trust info input store
    (.returned added.1.1 added.1.2, added.2)
  | .returned result err => (.returned result err, store)
  | .removed result => (.removed result, store)

def TrustCall.step (codec : CertCodec) (input : TrustInput) (call : TrustCall)
    (store : TrustStore) : TrustCall × TrustStore :=
  match call.request with
  | .verify args =>
    ({ call with pc := (args.step codec input store call.pc).1 },
      (args.step codec input store call.pc).2)
  | .remove nodeID =>
    if call.pc = .start then
      ({ call with pc := .removed (store.remove input.fault nodeID).1 },
        (store.remove input.fault nodeID).2)
    else (call, store)

def verifier (codec : CertCodec) : Calls.Machine TrustStore TrustRequest TrustCall TrustInput where
  init request := { request, pc := .start }
  step := TrustCall.step codec

abbrev TrustWorld := Calls.World TrustStore TrustCall

abbrev TrustEvent := Calls.Event TrustRequest TrustInput

/-- What the beginning of a verification comes to, and what the rest of it does if it is not
interrupted. -/
inductive Checked (codec : CertCodec) (args : VerifyArgs) (input : TrustInput)
    (store : TrustStore) : Prop
  | refused (result : VerifyResult) (err : Option String)
      (hcheck : args.check codec input store = .returned result err)
      (hverify : args.verify codec input store = ((result, err), store))
      (htrusted : result.trusted = false)
  | known (info : CertInfo) (hinfo : codec.parseCertInfo args.certPEM = .ok info)
      (htrusted : store.isTrusted args.nodeID info.fingerprint = .ok true)
      (hcheck : args.check codec input store = .touching info)
      (hverify : args.verify codec input store =
        let store' := (store.updateLastSeen input.now input.outcome args.nodeID).2
        (({ trusted := true, node := store'.nodes.find? args.nodeID }, none), store'))
  | unknown (info : CertInfo) (hinfo : codec.parseCertInfo args.certPEM = .ok info)
      (htrusted : store.isTrusted args.nodeID info.fingerprint = .ok false)
      (hcheck : args.check codec input store = .adding info)
      (hverify : args.verify codec input store = args.trust info input store)

theorem checked (codec : CertCodec) (args : VerifyArgs) (input : TrustInput) (store : TrustStore) :
    Checked codec args input store := by
  cases hinfo : codec.parseCertInfo args.certPEM with
  | error err =>
    exact .refused { error := err } (some err) (by simp only [check, hinfo])
      (by simp only [verify, hinfo]) rfl
  | ok info =>
    cases htrusted : store.isTrusted args.nodeID info.fingerprint with
    | error err =>
      exact .refused { error := err, fingerprintMismatch := true } (some err)
        (by simp only [check, hinfo, htrusted])
        (by simp only [verify, hinfo, htrusted]) rfl
    | ok trusted =>
      cases trusted with
      | true =>
        exact .known info hinfo htrusted (by simp only [check, hinfo, htrusted])
          (by simp only [verify, hinfo, htrusted])
      | false =>
        cases hd : args.mode.decide input with
        | true =>
          exact .unknown info hinfo htrusted
            (by simp only [check, hinfo, htrusted, hd, if_true])
            (by simp only [verify, hinfo, htrusted, hd, if_true])
        | false =>
          exact .refused { error := args.mode.refusal } none
            (by simp [check, hinfo, htrusted, hd])
            (by simp [verify, hinfo, htrusted, hd]) rfl

variable {codec : CertCodec} {args : VerifyArgs} {input : TrustInput} {store : TrustStore}
  {nodeID fingerprint other : String} {outcome : WriteOutcome} {call : TrustCall} {w : TrustWorld}
  {event : TrustEvent}

theorem trusted_of_check {result : VerifyResult} {err : Option String}
    (h : args.check codec input store = .returned result err) : result.trusted = false := by
  cases checked codec args input store with
  | refused result' err' hcheck hverify htrusted =>
    rw [h] at hcheck
    cases hcheck
    exact htrusted
  | known info hinfo htrusted hcheck hverify =>
    rw [h] at hcheck
    cases hcheck
  | unknown info hinfo htrusted hcheck hverify =>
    rw [h] at hcheck
    cases hcheck

/-- A verification that is not interrupted is `verify`. -/
theorem reaches_verify (codec : CertCodec) (args : VerifyArgs) (input : TrustInput) (store : TrustStore) :
    let result := args.verify codec input store
    (verifier codec).Reaches input (⟨.verify args, .start⟩, store)
      (⟨.verify args, .returned result.1.1 result.1.2⟩, result.2) := by
  refine .step ?_
  show (verifier codec).Reaches input (⟨.verify args, args.check codec input store⟩, store) _
  cases checked codec args input store with
  | refused result err hcheck hverify htrusted =>
    rw [hcheck, hverify]
    exact .refl _
  | known info hinfo htrusted hcheck hverify =>
    rw [hcheck, hverify]
    exact .step (.step (.refl _))
  | unknown info hinfo htrusted hcheck hverify =>
    rw [hcheck, hverify]
    exact .step (.refl _)

/-! ### What a fingerprint in the store goes through -/

def Holds (nodeID fingerprint : String) (store : TrustStore) : Prop :=
  ∃ node, store.nodes.find? nodeID = some node ∧ node.fingerprint = fingerprint

theorem Holds.unique {fingerprint' : String}
    (h : Holds nodeID fingerprint store) (h' : Holds nodeID fingerprint' store) :
    fingerprint = fingerprint' := by
  obtain ⟨node, hf, hn⟩ := h
  obtain ⟨node', hf', hn'⟩ := h'
  rw [hf] at hf'
  cases hf'
  rw [← hn, hn']

theorem holds_put_iff {node : TrustedNode} : Holds nodeID fingerprint (store.put outcome node).2 ↔
      if nodeID = node.nodeID then node.fingerprint = fingerprint
      else Holds nodeID fingerprint store := by
  unfold Holds
  rw [nodes_put, find?_put]
  by_cases hid : nodeID = node.nodeID
  · simp [hid]
  · simp [hid]

theorem holds_updateLastSeen {now : Time} (h : Holds nodeID fingerprint store) :
    Holds nodeID fingerprint (store.updateLastSeen now outcome other).2 := by
  unfold TrustStore.updateLastSeen TrustStore.change
  cases hf : store.nodes.find? other with
  | none => exact h
  | some node =>
    refine holds_put_iff.mpr ?_
    split
    next hid =>
      obtain ⟨node', hf', hn'⟩ := h
      have hother : node.nodeID = other := key_of_find? hf
      have hs : nodeID = other := hid.trans hother
      rw [hs, hf] at hf'
      cases hf'
      exact hn'
    · exact h

theorem holds_remove {fault : Option String}
    (hne : nodeID ≠ other) (h : Holds nodeID fingerprint store) :
    Holds nodeID fingerprint (store.remove fault other).2 := by
  unfold Holds
  rw [find?_remove, if_neg hne]
  exact h

theorem trust_snd (args : VerifyArgs) (info : CertInfo) (input : TrustInput) (store : TrustStore) :
    (args.trust info input store).2 =
      (store.put input.outcome (store.dated input.now (args.node info))).2 := by
  simp only [VerifyArgs.trust, TrustStore.add]
  split <;> rfl

theorem holds_trust_iff {info : CertInfo} :
    Holds nodeID fingerprint (args.trust info input store).2 ↔
      if nodeID = args.nodeID then info.fingerprint = fingerprint
      else Holds nodeID fingerprint store := by
  rw [trust_snd, holds_put_iff]
  rfl

def VerifyArgs.Presents (codec : CertCodec) (args : VerifyArgs) (fingerprint : String) : Prop :=
  ∃ info, codec.parseCertInfo args.certPEM = .ok info ∧ info.fingerprint = fingerprint

/-! ### Runs -/

/-- The call returns with this step, and says that the node is trusted with the certificate that it
presented. -/
def TrustCall.ReturnsTrusted (codec : CertCodec) (nodeID fingerprint : String) (input : TrustInput)
    (call : TrustCall) (store : TrustStore) : Prop :=
  ∃ args result err, call.request = .verify args ∧ args.nodeID = nodeID ∧
    args.Presents codec fingerprint ∧
    (∀ result err, call.pc ≠ .returned result err) ∧
    (call.step codec input store).1.pc = .returned result err ∧ result.trusted = true

/-- A call returns with this event, and says that the node is trusted with this fingerprint. -/
def ReturnsTrusted (codec : CertCodec) (nodeID fingerprint : String) (w : TrustWorld) (event : TrustEvent) : Prop :=
  ∃ i input call, event = .run i input ∧ w.calls[i]? = some call ∧
    call.ReturnsTrusted codec nodeID fingerprint input w.shared

/-- A call of `Remove` for the node takes effect with this event. -/
def removes (nodeID : String) (w : TrustWorld) : TrustEvent → Bool
  | .start _ => false
  | .run i _ => w.calls[i]?.any fun call => call.request = .remove nodeID && call.pc = .start

/-- The condition on a step of a call: `Add` finds the node unknown or with the fingerprint that it
adds, and `Get` finds it with the fingerprint that was trusted before. -/
def TrustCall.stepOk (store : TrustStore) (call : TrustCall) : Bool :=
  match call.request with
  | .remove _ => true
  | .verify args =>
    match call.pc with
    | .adding info => (store.nodes.find? args.nodeID).all fun node => node.fingerprint = info.fingerprint
    | .fetching info =>
      (store.nodes.find? args.nodeID).any fun node => node.fingerprint = info.fingerprint
    | .start | .touching _ | .returned _ _ | .removed _ => true

def trustStepOk (w : TrustWorld) : TrustEvent → Bool
  | .start _ => true
  | .run i _ => w.calls[i]?.all fun call => call.stepOk w.shared

def TrustPc.info? : TrustPc → Option CertInfo
  | touching info | fetching info | adding info => some info
  | start | returned _ _ | removed _ => none

def TrustCall.InfoOk (codec : CertCodec) (call : TrustCall) : Prop :=
  ∀ args info, call.request = .verify args → call.pc.info? = some info →
    codec.parseCertInfo args.certPEM = .ok info

theorem infoOk_step (h : call.InfoOk codec) : (call.step codec input store).1.InfoOk codec := by
  intro args info hr hinfo
  obtain ⟨request, pc⟩ := call
  cases request with
  | remove nodeID =>
    unfold TrustCall.step at hr
    simp only at hr
    split at hr
    · cases hr
    · cases hr
  | verify args' =>
    cases hr
    cases pc with
    | start =>
      have hi' : (args.check codec input store).info? = some info := hinfo
      cases checked codec args input store with
      | refused result err hcheck hverify htrusted =>
        rw [hcheck] at hi'
        cases hi'
      | known info' hp htrusted hcheck hverify =>
        rw [hcheck] at hi'
        cases hi'
        exact hp
      | unknown info' hp htrusted hcheck hverify =>
        rw [hcheck] at hi'
        cases hi'
        exact hp
    | touching info' => exact h args info rfl hinfo
    | _ => cases hinfo

theorem Holds.eq_of_all (h : Holds nodeID other store)
    (hall : (store.nodes.find? nodeID).all (fun node => node.fingerprint = fingerprint) = true) :
    other = fingerprint := by
  obtain ⟨node, hf, hn⟩ := h
  rw [hf] at hall
  rw [← hn]
  exact of_decide_eq_true hall

theorem holds_of_any (ha : (store.nodes.find? nodeID).any (fun node => node.fingerprint = fingerprint) = true) :
    Holds nodeID fingerprint store := by
  cases hf : store.nodes.find? nodeID with
  | none =>
    rw [hf] at ha
    cases ha
  | some node =>
    rw [hf] at ha
    exact ⟨node, hf, of_decide_eq_true ha⟩

/-- A step that meets the condition keeps a fingerprint, unless it removes the node. -/
theorem holds_step (hok : call.stepOk store = true) (hr : ¬(call.request = .remove nodeID ∧ call.pc = .start))
    (h : Holds nodeID fingerprint store) :
    Holds nodeID fingerprint (call.step codec input store).2 := by
  obtain ⟨request, pc⟩ := call
  cases request with
  | remove other =>
    unfold TrustCall.step
    simp only
    split
    next hs =>
      have hne : nodeID ≠ other := fun hid => hr ⟨by rw [hid], hs⟩
      exact holds_remove hne h
    · exact h
  | verify args =>
    cases pc with
    | touching info => exact holds_updateLastSeen h
    | adding info =>
      refine holds_trust_iff.mpr ?_
      split
      next hid =>
        rw [hid] at h
        exact (h.eq_of_all hok).symm
      · exact h
    | _ => exact h

/-- A call that returns trust, with a step that meets the condition, leaves its fingerprint in the
store, and finds no other one there. -/
theorem holds_of_returnsTrusted (hinfo : call.InfoOk codec) (hok : call.stepOk store = true)
    (h : call.ReturnsTrusted codec nodeID fingerprint input store) :
    Holds nodeID fingerprint (call.step codec input store).2 ∧
      ∀ other, Holds nodeID other store → other = fingerprint := by
  obtain ⟨args, result, err, hr, hid, ⟨info, hp, hfi⟩, hpc, hstep, htrusted⟩ := h
  obtain ⟨request, pc⟩ := call
  cases hr
  subst hid hfi
  have hs : ∀ info', pc.info? = some info' → info' = info := fun info' hpc' => by
    have hp' := hinfo args info' rfl hpc'
    rw [hp] at hp'
    cases hp'
    rfl
  cases pc with
  | start =>
    have hf : result.trusted = false := trusted_of_check hstep
    rw [htrusted] at hf
    cases hf
  | fetching info' =>
    cases hs info' rfl
    have hh : Holds args.nodeID info.fingerprint store := holds_of_any hok
    exact ⟨hh, fun other hother => hother.unique hh⟩
  | adding info' =>
    cases hs info' rfl
    refine ⟨holds_trust_iff.mpr (by rw [if_pos rfl]), fun other hother => ?_⟩
    exact hother.eq_of_all hok
  | returned result' err' => exact absurd rfl (hpc result' err')
  | _ => cases hstep

theorem infoOk_next (h : ∀ call ∈ w.calls, call.InfoOk codec) :
    ∀ call ∈ ((verifier codec).next w event).calls, call.InfoOk codec := by
  refine Calls.Machine.forall_calls_next (fun call _ => TrustCall.InfoOk codec call) h ?_ ?_
  · intro request args info _ hinfo
    cases hinfo
  · intro i input call _ _ hcall
    exact ⟨infoOk_step hcall, fun _ hother => hother⟩

/-- An event that meets the condition keeps a fingerprint, unless it removes the node. -/
theorem holds_next (hok : trustStepOk w event = true)
    (hr : removes nodeID w event = false) (h : Holds nodeID fingerprint w.shared) :
    Holds nodeID fingerprint ((verifier codec).next w event).shared := by
  refine Calls.Machine.next_rule (fun w => Holds nodeID fingerprint w.shared) h ?_ ?_
  · intro request _
    exact h
  · intro i input call he hg
    subst he
    simp only [trustStepOk, removes, hg, Option.all_some, Option.any_some] at hok hr
    exact holds_step hok (by simpa using hr) h

/-- An event by which trust is returned leaves the fingerprint in the store, and finds no other one
there. -/
theorem holds_of_returns (hinfo : ∀ call ∈ w.calls, call.InfoOk codec)
    (hok : trustStepOk w event = true) (h : ReturnsTrusted codec nodeID fingerprint w event) :
    Holds nodeID fingerprint ((verifier codec).next w event).shared ∧
      ∀ other, Holds nodeID other w.shared → other = fingerprint := by
  obtain ⟨i, input, call, rfl, hg, hr⟩ := h
  have hcall : call.InfoOk codec := hinfo call (mem_of_getElem? hg)
  simp only [trustStepOk, hg, Option.all_some] at hok
  simp only [Calls.Machine.next, hg]
  exact holds_of_returnsTrusted hcall hok hr

/-- **A trusted fingerprint stays.** In a run whose steps meet the condition, a call returns trust
for a node only with the fingerprint with which an earlier call did, unless the node was removed
in between. -/
theorem trust_stays (codec : CertCodec) (store : TrustStore)
    (before between after : List TrustEvent) (first later : TrustEvent) (nodeID fingerprint fingerprint' : String)
    (hok : Run.AllSteps (verifier codec).next (fun w event => trustStepOk w event = true)
      (.idle store) (before ++ first :: (between ++ later :: after)))
    (hfirst : ReturnsTrusted codec nodeID fingerprint
      (before.foldl (verifier codec).next (.idle store)) first)
    (hremove : Run.AllSteps (verifier codec).next (fun w event => removes nodeID w event = false)
      ((before ++ [first]).foldl (verifier codec).next (.idle store)) between)
    (hlater : ReturnsTrusted codec nodeID fingerprint'
      ((before ++ first :: between).foldl (verifier codec).next (.idle store)) later) :
    fingerprint' = fingerprint := by
  have hinfo : ∀ events : List TrustEvent, ∀ call ∈
      (events.foldl (verifier codec).next (.idle store)).calls, call.InfoOk codec := fun events =>
    Run.invariant (fun w : TrustWorld => ∀ call ∈ w.calls, call.InfoOk codec) (fun _ => True)
      (fun _ _ _ => infoOk_next) (by simp [Calls.World.idle]) (fun _ _ => trivial)
  obtain ⟨-, hof, hrest⟩ := Run.allSteps_append.mp hok
  obtain ⟨ho, hol, -⟩ := Run.allSteps_append.mp hrest
  rw [foldl_append] at hlater
  rw [foldl_append, foldl_cons] at hremove
  have hs := (holds_of_returns (hinfo before) hof hfirst).1
  -- the fingerprint of the first call is still in the store when the later one returns
  have hst := Run.invariant_of_allSteps (fun w : TrustWorld => Holds nodeID fingerprint w.shared)
    (fun _ _ hw hstep => holds_next hstep.1 hstep.2 hw) hs (ho.and hremove)
    between.length
  rw [take_length] at hst
  have hi := hinfo (before ++ first :: between)
  rw [foldl_append] at hi
  exact ((holds_of_returns hi hol hlater).2 fingerprint hst).symm

def sampleArgs (certificate : Bytes) : VerifyArgs :=
  { mode := .verify true, nodeID := "node", address := ""
    certPEM := plainPem certificate }

def sampleInput : TrustInput :=
  { now := 1, outcome := .written, fault := none, response := none, accepted := false }

def sampleInfo (certificate : Bytes) : CertInfo :=
  { fingerprint := hexEncode certificate, subject := "", issuer := "", notBefore := 0, notAfter := 0
    isCA := false, pem := plainPem certificate }

/-- A call of a test returns trust if it returns a trusted result with this step. -/
theorem returnsTrusted_sample {certificate : Bytes} {i : Nat} (pc : TrustPc)
    {result : VerifyResult}
    (hcall : w.calls[i]? = some { request := .verify (sampleArgs certificate), pc })
    (hpc : ∀ result err, pc ≠ .returned result err)
    (hstep : ((sampleArgs certificate).step plainCodec sampleInput w.shared pc).1 =
      .returned result none) (htrusted : result.trusted = true) :
    ReturnsTrusted plainCodec "node" (hexEncode certificate) w (.run i sampleInput) :=
  ⟨i, sampleInput, _, rfl, hcall, sampleArgs certificate, result, none, rfl, rfl,
    ⟨sampleInfo certificate, rfl, rfl⟩, hpc, hstep, htrusted⟩

/-- A certificate is added, and then found trusted. -/
theorem trust_stays_second_connection :
    let before : List TrustEvent := [.start (.verify (sampleArgs [1])), .run 0 sampleInput]
    let first : TrustEvent := .run 0 sampleInput
    let between : List TrustEvent :=
      [.start (.verify (sampleArgs [1])), .run 1 sampleInput, .run 1 sampleInput]
    let later : TrustEvent := .run 1 sampleInput
    let w : TrustWorld := .idle (newTrustStore empty)
    Run.AllSteps (verifier plainCodec).next (fun w event => trustStepOk w event = true) w
        (before ++ first :: (between ++ later :: [])) ∧
      ReturnsTrusted plainCodec "node" (hexEncode [1])
        (before.foldl (verifier plainCodec).next w) first ∧
      ReturnsTrusted plainCodec "node" (hexEncode [1])
        ((before ++ first :: between).foldl (verifier plainCodec).next w) later ∧
      hexEncode [1] = hexEncode [1] := by
  intro before first between later w
  have hok : Run.AllSteps (verifier plainCodec).next (fun w event => trustStepOk w event = true) w
      (before ++ first :: (between ++ later :: [])) := by decide +kernel
  have hf : ReturnsTrusted plainCodec "node" (hexEncode [1])
      (before.foldl (verifier plainCodec).next w) first :=
    returnsTrusted_sample (.adding (sampleInfo [1])) (by decide +kernel) (by simp) rfl rfl
  have hl : ReturnsTrusted plainCodec "node" (hexEncode [1])
      ((before ++ first :: between).foldl (verifier plainCodec).next w) later :=
    returnsTrusted_sample (.fetching (sampleInfo [1])) (by decide +kernel) (by simp) rfl rfl
  exact ⟨hok, hf, hl, trust_stays plainCodec (newTrustStore empty) before between []
    first later "node" _ _ hok hf (by decide +kernel) hl⟩

/-- Two calls find the node unknown, and both add their certificate. -/
theorem two_first_connections :
    let before : List TrustEvent :=
      [.start (.verify (sampleArgs [1])), .start (.verify (sampleArgs [2])), .run 0 sampleInput,
        .run 1 sampleInput]
    let first : TrustEvent := .run 0 sampleInput
    let later : TrustEvent := .run 1 sampleInput
    let w : TrustWorld := .idle (newTrustStore empty)
    ReturnsTrusted plainCodec "node" (hexEncode [1])
        (before.foldl (verifier plainCodec).next w) first ∧
      ReturnsTrusted plainCodec "node" (hexEncode [2])
        ((before ++ [first]).foldl (verifier plainCodec).next w) later ∧
      hexEncode [1] ≠ hexEncode [2] := by
  intro before first later w
  refine ⟨?_, ?_, by decide⟩
  · exact returnsTrusted_sample (.adding (sampleInfo [1])) (by decide +kernel) (by simp) rfl
      rfl
  · exact returnsTrusted_sample (.adding (sampleInfo [2])) (by decide +kernel) (by simp) rfl
      rfl

end Bib.Certs
