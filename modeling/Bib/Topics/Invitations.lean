import Bib.Lib.Calls
import Bib.Topics.Membership

/-!
# Bib.Topics.Invitations

**Answers to an invitation that overlap.** `AcceptInvitation`, `DeclineInvitation` and `CancelInvitation` read
the invitation, check that it is pending, and write the answer at the end; in between `CancelInvitation` may ask
for a role, and `AcceptInvitation` creates a member. The last operation, an `UPDATE` by the id, does not look at
the status again (`invitation_consumed_once`).
-/

namespace Bib.Topics

open Bib.Domain Bib.Lib Bib.Lib.Run List Table

/-! ### Calls, cut at their operations -/

/-- What a call returns besides the error: `AcceptInvitation` the member, the others nothing. -/
inductive Answer
  | member (member : TopicMember)
  | done

inductive AnswerCall
  /-- `AcceptInvitation` before `GetByToken`. -/
  | accept (token userID memberID : String)
  /-- `DeclineInvitation` before `GetByToken`. -/
  | decline (token userID : String)
  /-- `CancelInvitation` before `Get`. -/
  | cancel (invitationID cancellerID : String)
  /-- `CancelInvitation` before `GetRole`. -/
  | role (invitation : TopicInvitation) (cancellerID : String)
  /-- `AcceptInvitation` before `TopicMembers().Create`. -/
  | create (invitation : TopicInvitation) (userID memberID : String)
  /-- Before `Update`, after which the call returns `outcome`. -/
  | update (invitation : TopicInvitation) (outcome : Except TopicError Answer)
  | failed (err : TopicError)
  | succeeded (invitationID : String) (answer : Answer)

inductive AnswerRequest
  | accept (token userID memberID : String)
  | decline (token userID : String)
  | cancel (invitationID cancellerID : String)

def AnswerRequest.call : AnswerRequest → AnswerCall
  | accept token userID memberID => .accept token userID memberID
  | decline token userID => .decline token userID
  | cancel invitationID cancellerID => .cancel invitationID cancellerID

/-- `AcceptInvitation` with the invitation it has read. -/
def acceptRead (invitation : TopicInvitation) (userID memberID : String) (now : Time) : AnswerCall :=
  if invitation.status ≠ .pending then .failed .invalidOperation
  else if now > invitation.expiresAt then
    .update (invitation.answer .expired now) (.error .sessionExpired)
  else if invitation.inviteeUserID ≠ "" ∧ invitation.inviteeUserID ≠ userID then
    .failed .unauthorized
  else .create invitation userID memberID

/-- `DeclineInvitation` with the invitation it has read. -/
def declineRead (invitation : TopicInvitation) (userID : String) (now : Time) : AnswerCall :=
  if invitation.status ≠ .pending then .failed .invalidOperation
  else if invitation.inviteeUserID ≠ "" ∧ invitation.inviteeUserID ≠ userID then
    .failed .unauthorized
  else .update (invitation.answer .declined now) (.ok .done)

/-- `CancelInvitation` with the invitation it has read, once the canceller may cancel. -/
def cancelAllowed (invitation : TopicInvitation) (now : Time) : AnswerCall :=
  if invitation.status ≠ .pending then .failed .invalidOperation
  else .update (invitation.answer .cancelled now) (.ok .done)

def acceptedMember (invitation : TopicInvitation) (userID memberID : String) (now : Time) : TopicMember :=
  { id := memberID, topicID := invitation.topicID, userID, role := invitation.role
    invitedBy := invitation.inviterID, invitedAt := invitation.createdAt, acceptedAt := some now
    createdAt := now, updatedAt := now }

/-- What a call that is done with its last operation has returned. -/
def returned (invitationID : String) : Except TopicError Answer → AnswerCall
  | .ok answer => .succeeded invitationID answer
  | .error err => .failed err

/-- One operation of a call, with the checks that follow it; `now` is its clock. -/
def answerStep (now : Time) (call : AnswerCall) (store : Store) : AnswerCall × Store :=
  match call with
  | .accept token userID memberID =>
    match getInvitationByToken token store with
    | none => (.failed .ownerNotFound, store)
    | some invitation => (acceptRead invitation userID memberID now, store)
  | .decline token userID =>
    match getInvitationByToken token store with
    | none => (.failed .ownerNotFound, store)
    | some invitation => (declineRead invitation userID now, store)
  | .cancel invitationID cancellerID =>
    match getInvitation invitationID store with
    | none => (.failed .ownerNotFound, store)
    | some invitation =>
      if invitation.inviterID ≠ cancellerID then (.role invitation cancellerID, store)
      else (cancelAllowed invitation now, store)
  | .role invitation cancellerID =>
    if !isOwner invitation.topicID cancellerID store then (.failed .notOwner, store)
    else (cancelAllowed invitation now, store)
  | .create invitation userID memberID =>
    let member := acceptedMember invitation userID memberID now
    match createMember member store with
    | .error err => (.failed err, store)
    | .ok store' => (.update (invitation.answer .accepted now) (.ok (.member member)), store')
  | .update invitation outcome => (returned invitation.id outcome, updateInvitation invitation store)
  | .failed err => (.failed err, store)
  | .succeeded invitationID answer => (.succeeded invitationID answer, store)

def answering : Calls.Machine Store AnswerRequest AnswerCall Time where
  init := AnswerRequest.call
  step := answerStep

/-! ### A call that is not interrupted -/

section Alone

variable {now : Time} {store : Store}

theorem reaches_update (invitation : TopicInvitation) (outcome : Except TopicError Answer) :
    answering.Reaches now (.update invitation outcome, store)
      (returned invitation.id outcome, updateInvitation invitation store) :=
  .step (.refl _)

/-- `AcceptInvitation`, left alone, is the handler. -/
theorem reaches_accept (token userID memberID : String) : ∃ id, answering.Reaches now
    (.accept token userID memberID, store)
    (returned id ((acceptInvitation token userID memberID now store).1.map .member),
      (acceptInvitation token userID memberID now store).2) := by
  unfold acceptInvitation
  cases hg : getInvitationByToken token store with
  | none => exact ⟨"", .step (by simpa [answering, answerStep, hg] using .refl _)⟩
  | some invitation =>
    refine ⟨invitation.id, .step ?_⟩
    simp only [answering, answerStep, hg, acceptRead]
    split_ifs
    · exact .refl _
    · exact reaches_update _ _
    · exact .refl _
    · refine .step ?_
      simp only [answerStep, acceptedMember]
      generalize createMember _ store = created
      cases created with
      | error err => exact .refl _
      | ok store' => exact reaches_update _ _

theorem reaches_decline (token userID : String) : ∃ id, answering.Reaches now
    (.decline token userID, store)
    (returned id ((declineInvitation token userID now store).1.map fun _ => .done),
      (declineInvitation token userID now store).2) := by
  unfold declineInvitation
  cases hg : getInvitationByToken token store with
  | none => exact ⟨"", .step (by simpa [answering, answerStep, hg] using .refl _)⟩
  | some invitation =>
    refine ⟨invitation.id, .step ?_⟩
    simp only [answering, answerStep, hg, declineRead]
    split_ifs
    · exact .refl _
    · exact .refl _
    · exact reaches_update _ _

/-- `CancelInvitation`, left alone; the inviter is not asked for a role. -/
theorem reaches_cancel (invitationID cancellerID : String) : ∃ id, answering.Reaches now
    (.cancel invitationID cancellerID, store)
    (returned id ((cancelInvitation invitationID cancellerID now store).1.map fun _ => .done),
      (cancelInvitation invitationID cancellerID now store).2) := by
  unfold cancelInvitation
  cases hg : getInvitation invitationID store with
  | none => exact ⟨"", .step (by simpa [answering, answerStep, hg] using .refl _)⟩
  | some invitation =>
    refine ⟨invitation.id, .step ?_⟩
    simp only [answering, answerStep, hg]
    by_cases hi : invitation.inviterID = cancellerID
    · rw [if_neg (not_not_intro hi), if_neg fun h => h.1 hi]
      unfold cancelAllowed
      split_ifs
      · exact .refl _
      · exact reaches_update _ _
    · rw [if_pos hi]
      refine .step ?_
      cases howner : isOwner invitation.topicID cancellerID store with
      | false => simpa [answerStep, hi, howner] using .refl _
      | true =>
        simp only [answerStep, cancelAllowed, howner, Bool.not_true, Bool.false_eq_true, if_false, and_false]
        split_ifs
        · exact .refl _
        · exact reaches_update _ _

end Alone

/-! ### What one step does -/

def AnswerCall.answered (id : String) : AnswerCall → Bool
  | .succeeded invitationID _ => invitationID = id
  | _ => false

/-- The invitation that a call has found pending and may still answer. -/
def AnswerCall.holds : AnswerCall → Option String
  | .role invitation _ => if invitation.status = .pending then some invitation.id else none
  | .create invitation _ _ => some invitation.id
  | .update invitation (.ok _) => some invitation.id
  | _ => none

def AnswerCall.Settles : AnswerCall → Prop
  | .update invitation _ => invitation.status ≠ .pending
  | _ => True

def statusOf (store : Store) (id : String) : Option InvitationStatus :=
  (getInvitation id store).map TopicInvitation.status

variable {store : Store} {invitation : TopicInvitation}

theorem statusOf_of_getInvitationByToken {token : String} (h : getInvitationByToken token store = some invitation) :
    statusOf store invitation.id = some invitation.status := by
  have hrow : getInvitation invitation.id store = some invitation :=
    mem_rows_iff.mp (mem_of_getInvitationByToken h).1
  rw [statusOf, hrow, Option.map_some]

theorem statusOf_of_getInvitation {id : String} (h : getInvitation id store = some invitation) :
    statusOf store invitation.id = some invitation.status := by
  have hid : invitation.id = id := key_of_find? h
  rw [statusOf, hid, h, Option.map_some]

/-- `Update` sets the status of its invitation, if there is one, and no other. -/
theorem statusOf_updateInvitation (invitation : TopicInvitation) (store : Store) (id : String) :
    statusOf (updateInvitation invitation store) id =
      if id = invitation.id then (statusOf store id).map fun _ => invitation.status
      else statusOf store id := by
  unfold statusOf updateInvitation getInvitation
  cases hf : store.invitations.find? invitation.id with
  | none =>
    by_cases hid : id = invitation.id
    · simp [hid, hf]
    · simp [hid]
  | some row =>
    have hk : row.id = invitation.id := key_of_find? hf
    rw [find?_put]
    by_cases hid : id = invitation.id
    · simp [hid, hk, hf]
    · simp [hid, hk]

/-- A step that writes no answer: the invitations stay, the call has answered as much as before, and
if it may answer an invitation now, it could before or the invitation is pending. -/
structure Quiet (store store' : Store) (call call' : AnswerCall) : Prop where
  invitations : store'.invitations = store.invitations
  answered : ∀ id, call'.answered id = call.answered id
  holds : ∀ id, call'.holds = some id → call.holds = some id ∨ statusOf store id = some .pending
  settles : call.Settles → call'.Settles

section Steps

variable {store : Store} {now : Time} {call : AnswerCall} {token userID memberID : String}
  {invitation : TopicInvitation}

theorem Quiet.fail (err : TopicError) (h : ∀ id, call.answered id = false) :
    Quiet store store call (.failed err) where
  invitations := rfl
  answered id := (h id).symm
  holds _ hid := by cases hid
  settles _ := trivial

theorem Quiet.toUpdate (invitation : TopicInvitation) {status : InvitationStatus}
    (outcome : Except TopicError Answer) (hs : status ≠ .pending)
    (hcall : ∀ id, call.answered id = false) (hh : (∃ answer, outcome = .ok answer) →
      call.holds = some invitation.id ∨ statusOf store invitation.id = some .pending) :
    Quiet store store call (.update (invitation.answer status now) outcome) where
  invitations := rfl
  answered id := (hcall id).symm
  holds id hid := by
    cases outcome with
    | error err => cases hid
    | ok answer =>
      cases hid
      exact hh ⟨answer, rfl⟩
  settles _ := hs

theorem quiet_acceptRead (h : statusOf store invitation.id = some invitation.status) :
    Quiet store store (.accept token userID memberID)
      (acceptRead invitation userID memberID now) := by
  unfold acceptRead
  by_cases hp : invitation.status = .pending
  · rw [if_neg (not_not_intro hp)]
    split
    · refine .toUpdate invitation _ (by decide) (fun _ => rfl) ?_
      rintro ⟨_, ⟨⟩⟩
    · split
      · exact .fail _ fun _ => rfl
      · refine ⟨rfl, fun _ => rfl, fun id hid => .inr ?_, fun _ => trivial⟩
        cases hid
        rw [h, hp]
  · rw [if_pos hp]
    exact .fail _ fun _ => rfl

theorem quiet_declineRead (h : statusOf store invitation.id = some invitation.status) :
    Quiet store store (.decline token userID) (declineRead invitation userID now) := by
  unfold declineRead
  by_cases hp : invitation.status = .pending
  · rw [if_neg (not_not_intro hp)]
    split
    · exact .fail _ fun _ => rfl
    · refine .toUpdate invitation _ (by decide) (fun _ => rfl) fun _ => .inr ?_
      rw [h, hp]
  · rw [if_pos hp]
    exact .fail _ fun _ => rfl

theorem quiet_cancelAllowed (hcall : ∀ id, call.answered id = false) (h : invitation.status = .pending →
      call.holds = some invitation.id ∨ statusOf store invitation.id = some .pending) :
    Quiet store store call (cancelAllowed invitation now) := by
  unfold cancelAllowed
  by_cases hp : invitation.status = .pending
  · rw [if_neg (not_not_intro hp)]
    exact .toUpdate invitation _ (by decide) hcall fun _ => h hp
  · rw [if_pos hp]
    exact .fail _ hcall

theorem quiet_create : Quiet store (answerStep now (.create invitation userID memberID) store).2
      (.create invitation userID memberID)
      (answerStep now (.create invitation userID memberID) store).1 := by
  simp only [answerStep]
  cases hc : createMember (acceptedMember invitation userID memberID now) store with
  | error err => exact .fail _ fun _ => rfl
  | ok store' =>
    obtain ⟨row, rfl, -⟩ := createMember_eq_ok hc
    refine ⟨rfl, fun _ => rfl, fun id hid => .inl hid, fun _ => ?_⟩
    exact (by decide : InvitationStatus.accepted ≠ .pending)

theorem quiet_answerStep (h : ∀ invitation outcome, call ≠ .update invitation outcome) :
    Quiet store (answerStep now call store).2 call (answerStep now call store).1 := by
  cases call with
  | accept token userID memberID =>
    simp only [answerStep]
    cases hg : getInvitationByToken token store with
    | none => exact .fail _ fun _ => rfl
    | some invitation => exact quiet_acceptRead (statusOf_of_getInvitationByToken hg)
  | decline token userID =>
    simp only [answerStep]
    cases hg : getInvitationByToken token store with
    | none => exact .fail _ fun _ => rfl
    | some invitation => exact quiet_declineRead (statusOf_of_getInvitationByToken hg)
  | cancel invitationID cancellerID =>
    simp only [answerStep]
    cases hg : getInvitation invitationID store with
    | none => exact .fail _ fun _ => rfl
    | some invitation =>
      have hs := statusOf_of_getInvitation hg
      dsimp only
      by_cases hi : invitation.inviterID ≠ cancellerID
      · rw [if_pos hi]
        refine ⟨rfl, fun _ => rfl, fun id hid => .inr ?_, fun _ => trivial⟩
        simp only [AnswerCall.holds, Option.ite_none_right_eq_some, Option.some.injEq] at hid
        rw [← hid.2, hs, hid.1]
      · rw [if_neg hi]
        refine quiet_cancelAllowed (fun _ => rfl) fun hp => .inr ?_
        rw [hs, hp]
  | role invitation cancellerID =>
    simp only [answerStep]
    split
    · exact .fail _ fun _ => rfl
    · refine quiet_cancelAllowed (fun _ => rfl) fun hp => .inl ?_
      rw [AnswerCall.holds, if_pos hp]
  | create invitation userID memberID => exact quiet_create
  | update invitation outcome => exact absurd rfl (h invitation outcome)
  | _ => exact ⟨rfl, fun _ => rfl, fun _ hid => .inl hid, fun h => h⟩

end Steps

/-! ### Runs -/

abbrev AnswerWorld := Calls.World Store AnswerCall

/-- How many calls have answered the invitation, that is, have returned without an error. -/
def answers (w : AnswerWorld) (id : String) : Nat := w.calls.countP (AnswerCall.answered id)

def answeredBy (w : AnswerWorld) : Calls.Event AnswerRequest Time → Option String
  | .start _ => none
  | .run i _ =>
    match w.calls[i]? with
    | some (.update invitation (.ok _)) => some invitation.id
    | _ => none

/-- The event is the `Update` of an `AcceptInvitation` that came too late. -/
def MarksExpired (w : AnswerWorld) : Calls.Event AnswerRequest Time → Prop
  | .start _ => False
  | .run i _ => ∃ invitation err, w.calls[i]? = some (.update invitation (.error err))

/-- An answer is written while the invitation is still pending. -/
def WritesPending (w : AnswerWorld) (event : Calls.Event AnswerRequest Time) : Prop :=
  ∀ id, answeredBy w event = some id → statusOf w.shared id = some .pending

instance (w : AnswerWorld) (event : Calls.Event AnswerRequest Time) : Decidable (WritesPending w event) :=
  inferInstanceAs (Decidable (∀ id ∈ answeredBy w event, statusOf w.shared id = some .pending))

/-- What every run keeps: a call writes an answer and nothing else, and an invitation that was answered is
not pending. -/
structure Answered (w : AnswerWorld) : Prop where
  settles : ∀ call ∈ w.calls, call.Settles
  answered : ∀ id, 0 < answers w id → statusOf w.shared id ≠ some .pending

/-- What runs keep in which nothing is marked as expired: an invitation that a call found pending is so
until it is answered. -/
def HeldPending (w : AnswerWorld) : Prop :=
  ∀ call ∈ w.calls, ∀ id, call.holds = some id → statusOf w.shared id = some .pending ∨ 0 < answers w id

section Runs

variable {w : AnswerWorld} {event : Calls.Event AnswerRequest Time}

theorem answers_set (store : Store) (call' : AnswerCall) (id : String) {i : Nat} {call : AnswerCall}
    (hg : w.calls[i]? = some call) :
    answers { shared := store, calls := w.calls.set i call' } id + (call.answered id).toNat =
      answers w id + (call'.answered id).toNat := by
  obtain ⟨hlt, hcall⟩ := List.getElem?_eq_some_iff.mp hg
  have hs := countP_set (p := AnswerCall.answered id) (a := call') hlt
  rw [hcall] at hs
  rw [answers, answers, hs]
  by_cases ha : call.answered id
  · have hp : 0 < w.calls.countP (AnswerCall.answered id) :=
      countP_pos_iff.mpr ⟨call, mem_of_getElem? hg, ha⟩
    simp only [ha, if_true, Bool.toNat_true]
    cases call'.answered id <;> simp <;> omega
  · simp only [ha, Bool.false_eq_true, if_false, Bool.toNat_false]
    cases call'.answered id <;> simp

/-- An event is the `Update` of a call, or leaves the invitations and the number of their answers. -/
theorem next_cases (w : AnswerWorld) (event : Calls.Event AnswerRequest Time) :
    (answeredBy w event = none ∧ ∀ id, answers (answering.next w event) id = answers w id ∧
        statusOf (answering.next w event).shared id = statusOf w.shared id) ∨
      ∃ i now invitation outcome, event = .run i now ∧ w.calls[i]? = some (.update invitation outcome) ∧
        answering.next w event =
          { shared := updateInvitation invitation w.shared
            calls := w.calls.set i (returned invitation.id outcome) } := by
  cases event with
  | start request =>
    refine .inl ⟨rfl, fun id => ⟨?_, rfl⟩⟩
    have hnew : (answering.init request).answered id = false := by cases request <;> rfl
    simp [answers, Calls.Machine.next, hnew]
  | run i now =>
    cases hg : w.calls[i]? with
    | none => exact .inl (by simp [answeredBy, Calls.Machine.next, hg])
    | some call =>
      have hn : answering.next w (.run i now) =
          { shared := (answerStep now call w.shared).2
            calls := w.calls.set i (answerStep now call w.shared).1 } := by
        simp only [Calls.Machine.next, hg]
        rfl
      by_cases hu : ∃ invitation outcome, call = .update invitation outcome
      · obtain ⟨invitation, outcome, rfl⟩ := hu
        exact .inr ⟨i, now, invitation, outcome, rfl, hg, hn⟩
      · have hq : Quiet w.shared _ call (answerStep now call w.shared).1 :=
          quiet_answerStep fun invitation outcome heq => hu ⟨_, _, heq⟩
        refine .inl ⟨?_, fun id => ?_⟩
        · simp only [answeredBy, hg]
          split
          next invitation answer heq =>
            cases heq
            exact absurd ⟨_, _, rfl⟩ hu
          next => rfl
        · have hs := answers_set (answerStep now call w.shared).2 (answerStep now call w.shared).1 id hg
          rw [hq.answered id] at hs
          rw [hn]
          simp only [statusOf, getInvitation, hq.invitations]
          exact ⟨Nat.add_right_cancel hs, trivial⟩

theorem answers_next (id : String) : answers (answering.next w event) id =
      answers w id + (decide (answeredBy w event = some id)).toNat := by
  obtain ⟨hby, hsame⟩ | ⟨i, now, invitation, outcome, rfl, hg, hn⟩ := next_cases w event
  · simp [(hsame id).1, hby]
  · have hs := answers_set (updateInvitation invitation w.shared)
      (returned invitation.id outcome) id hg
    rw [hn]
    cases outcome <;>
      simpa [returned, answeredBy, hg, AnswerCall.answered, Except.toBool] using hs

/-- An invitation that is pending after an event was so before, and the event did not answer it. -/
theorem statusOf_next_pending (hw : Answered w) {id : String}
    (h : statusOf (answering.next w event).shared id = some .pending) :
    statusOf w.shared id = some .pending ∧ answeredBy w event ≠ some id := by
  obtain ⟨hby, hsame⟩ | ⟨i, now, invitation, outcome, rfl, hg, hn⟩ := next_cases w event
  · rw [(hsame id).2] at h
    exact ⟨h, by simp [hby]⟩
  · have hs : invitation.status ≠ .pending := hw.settles _ (mem_of_getElem? hg)
    rw [hn] at h
    rw [statusOf_updateInvitation] at h
    by_cases hid : id = invitation.id
    · rw [if_pos hid] at h
      obtain ⟨_, _, hst⟩ := Option.map_eq_some_iff.mp h
      exact absurd hst hs
    · rw [if_neg hid] at h
      refine ⟨h, ?_⟩
      cases outcome with
      | error err => simp [answeredBy, hg]
      | ok answer => simpa [answeredBy, hg] using fun heq : invitation.id = id => hid heq.symm

/-- An event that does not answer an invitation leaves its status, unless it marks it as expired. -/
theorem statusOf_next_of_ne (hm : ¬ MarksExpired w event) {id : String}
    (h : answeredBy w event ≠ some id) :
    statusOf (answering.next w event).shared id = statusOf w.shared id := by
  obtain ⟨-, hsame⟩ | ⟨i, now, invitation, outcome, rfl, hg, hn⟩ := next_cases w event
  · exact (hsame id).2
  · cases outcome with
    | error err => exact absurd ⟨invitation, err, hg⟩ hm
    | ok answer =>
      have hid : id ≠ invitation.id := by
        intro heq
        simp [answeredBy, hg, heq] at h
      rw [hn]
      rw [statusOf_updateInvitation, if_neg hid]

/-- A step keeps what its call settles, and the call may answer after it what it could before or what is
pending. -/
theorem answerStep_call (now : Time) (call : AnswerCall) (store : Store) :
    (call.Settles → (answerStep now call store).1.Settles) ∧
      ∀ id, (answerStep now call store).1.holds = some id →
        call.holds = some id ∨ statusOf store id = some .pending := by
  by_cases hu : ∃ invitation outcome, call = .update invitation outcome
  · obtain ⟨invitation, outcome, rfl⟩ := hu
    cases outcome with
    | error err => exact ⟨fun _ => trivial, fun id hid => by cases hid⟩
    | ok answer => exact ⟨fun _ => trivial, fun id hid => by cases hid⟩
  · have hq : Quiet store _ call (answerStep now call store).1 :=
      quiet_answerStep fun invitation outcome heq => hu ⟨_, _, heq⟩
    exact ⟨hq.settles, hq.holds⟩

theorem Answered.next (h : Answered w) : Answered (answering.next w event) where
  settles := by
    refine Calls.Machine.forall_calls_next (fun call _ => AnswerCall.Settles call) h.settles ?_ ?_
    · intro request
      cases request <;> trivial
    · intro i now call _ _ hs
      exact ⟨(answerStep_call now call w.shared).1 hs, fun _ hother => hother⟩
  answered id hpo hp := by
    obtain ⟨hb, hby⟩ := statusOf_next_pending h hp
    rw [answers_next] at hpo
    simp only [hby, decide_false, Bool.toNat_false, Nat.add_zero] at hpo
    exact h.answered id hpo hb

theorem HeldPending.next (h : HeldPending w) (hm : ¬ MarksExpired w event) :
    HeldPending (answering.next w event) := by
  intro call hcall id hh
  have hid : statusOf w.shared id = some .pending ∨ 0 < answers w id := by
    refine Calls.Machine.forall_calls_next (fun call _ => call.holds = some id →
      statusOf w.shared id = some .pending ∨ 0 < answers w id) (fun call hc => h call hc id) ?_ ?_ call hcall hh
    · intro request hnew
      cases request <;> cases hnew
    · intro i now call _ _ hc
      refine ⟨fun hnew => ?_, fun _ hother => hother⟩
      exact ((answerStep_call now call w.shared).2 id hnew).elim hc .inl
  -- what was pending or answered before is so after the event
  rw [answers_next]
  by_cases hby : answeredBy w event = some id
  · exact .inr (by simp [hby])
  · rw [statusOf_next_of_ne hm hby]
    exact hid.imp_right fun hpo => Nat.add_pos_left hpo _

def AnsweredOnce (w : AnswerWorld) : Prop := ∀ id, answers w id ≤ 1

theorem AnsweredOnce.next (hw : Answered w) (h : AnsweredOnce w) (hok : WritesPending w event) :
    AnsweredOnce (answering.next w event) := by
  intro id
  rw [answers_next]
  by_cases hby : answeredBy w event = some id
  · have hnone : ¬ 0 < answers w id := fun hp => hw.answered id hp (hok id hby)
    simp only [hby, decide_true, Bool.toNat_true]
    omega
  · simp only [hby, decide_false, Bool.toNat_false, Nat.add_zero]
    exact h id

theorem writesPending_of_answeredOnce (hheld : HeldPending w)
    (h : AnsweredOnce (answering.next w event)) : WritesPending w event := by
  intro id hby
  have hnone : answers w id = 0 := by
    have hone := h id
    rw [answers_next] at hone
    simp only [hby, decide_true, Bool.toNat_true] at hone
    omega
  cases event with
  | start request => cases hby
  | run i now =>
    simp only [answeredBy] at hby
    split at hby
    next invitation answer hg =>
      rcases hheld _ (mem_of_getElem? hg) id hby with hp | hpo
      · exact hp
      · omega
    next => cases hby

end Runs

theorem answered_idle (store : Store) : Answered (.idle store) where
  settles := by simp [Calls.World.idle]
  answered := by simp [answers, Calls.World.idle]

/-- **An invitation is answered at most once in runs whose calls write their answer while it is still
pending.** Such are all runs with at most one answer to each invitation, unless a call in them marks an
invitation as expired: that mark is no answer, but hides whether there was one. -/
theorem invitation_consumed_once (store : Store) (events : List (Calls.Event AnswerRequest Time)) :
    (AllSteps answering.next WritesPending (.idle store) events →
      ∀ n, AnsweredOnce ((events.take n).foldl answering.next (.idle store))) ∧
    (AllSteps answering.next (fun w event => ¬ MarksExpired w event) (.idle store) events →
      ((∀ done, done <+: events → AnsweredOnce (done.foldl answering.next (.idle store))) ↔
        AllSteps answering.next WritesPending (.idle store) events)) := by
  have hid : AnsweredOnce (Calls.World.idle store : AnswerWorld) := by
    intro id
    simp [answers, Calls.World.idle]
  constructor
  · intro hall n
    have hi := invariant_of_allSteps (fun w => Answered w ∧ AnsweredOnce w)
      (fun w event hw hok => ⟨hw.1.next, hw.2.next hw.1 hok⟩) ⟨answered_idle store, hid⟩ hall n
    exact hi.2
  · intro hm
    have hl : AllSteps answering.next
        (fun w event => (Answered w ∧ HeldPending w) ∧ ¬ MarksExpired w event) (.idle store) events :=
      allSteps_and_invariant (fun w event hma hw => ⟨hw.1.next, hw.2.next hma⟩)
        ⟨answered_idle store, by simp [HeldPending, Calls.World.idle]⟩ hm
    refine forall_prefix_iff_of_legal AnsweredOnce (fun w event hw hg => ?_) hid hl
    exact ⟨writesPending_of_answeredOnce hw.1.2, hg.next hw.1.1⟩

/-- **An answered invitation does not become pending again**, in any interleaving of the calls. -/
theorem answered_not_pending (store : Store) (events : List (Calls.Event AnswerRequest Time)) (id : String) :
    let w := events.foldl answering.next (.idle store)
    ¬ (0 < answers w id ∧ statusOf w.shared id = some .pending) := by
  have h := foldlRecOn (motive := Answered) events answering.next (answered_idle store) fun _ h _ _ => h.next
  exact fun hp => h.answered id hp.1 hp.2

def emailInvitation : TopicInvitation :=
  { id := "i1", topicID := "t1", inviterID := "ann", inviteeEmail := "dev@example.org"
    inviteeUserID := "", role := .editor, token := "secret", message := "", status := .pending
    expiresAt := 100, createdAt := 0, respondedAt := none }

def invitedStore : Store where
  topics := empty.put
    { id := "t1", name := "data", description := "", tableSchema := "", status := .active
      owners := ["ann"], createdBy := "ann", createdAt := 0, updatedAt := 0, datasetCount := 0
      tags := [], metadata := [] }
  members := empty.put
    { id := "m1", topicID := "t1", userID := "ann", role := .owner, invitedBy := "", invitedAt := 0
      acceptedAt := some 0, createdAt := 0, updatedAt := 0 }
  invitations := empty.put emailInvitation

/-- Bob accepts the invitation; Eve and Ann, who read it afterwards, find it answered. -/
def answersInTurn : List (Calls.Event AnswerRequest Time) :=
  [.start (.accept "secret" "bob" "m2"), .start (.accept "secret" "eve" "m3"), .start (.cancel "i1" "ann"),
    .run 0 10, .run 0 10, .run 0 10, .run 1 11, .run 2 12]

theorem invitation_consumed_once_inTurn :
    AllSteps answering.next WritesPending (.idle invitedStore) answersInTurn ∧
    ∀ n, AnsweredOnce ((answersInTurn.take n).foldl answering.next (.idle invitedStore)) := by
  have h : AllSteps answering.next WritesPending (.idle invitedStore) answersInTurn := by decide +kernel
  exact ⟨h, (invitation_consumed_once invitedStore answersInTurn).1 h⟩

/-- Two users accept the one invitation, both before either has written its answer, and both become
editors. -/
theorem two_users_accept : answers
      ([.start (.accept "secret" "bob" "m2"), .start (.accept "secret" "eve" "m3"),
        .run 0 10, .run 1 10, .run 0 10, .run 1 10, .run 0 10, .run 1 10].foldl answering.next
          (.idle invitedStore)) "i1" = 2 := by
  decide +kernel

end Bib.Topics
