import Bib.Lib.Calls
import Bib.Topics.Membership

/-!
# Bib.Topics.Owners

**The owners of a topic under concurrency** (`Unsubscribe` of `grpc/services/topic/server.go`, and
`UpdateMemberRole`, `RemoveMember`, `TransferOwnership` and `RestoreTopic` of `membership.go`). The handlers are
cut at their statements. A write rests on what was read before it: a count of the owners, or a row that was no
owner's. This may be out of date at the write. `OwnerCall.Knows` says what a call under way has read, and it
stays true as long as no other call writes to the members of the topic in between (`owner_kept`).
-/

namespace Bib.Topics

open Bib.Domain Bib.Lib List Table

/-! ### The handlers, statement by statement -/

inductive OwnerRequest
  | unsubscribe (user : Option User) (topicID : String)
  | updateMemberRole (topicID updaterID memberID : String) (newRole : TopicMemberRole)
  | removeMember (topicID removerID memberID : String)
  | transferOwnership (topicID fromID toID : String)
  | restoreTopic (topicID ownerID : String)

inductive MemberWrite
  | delete (topicID userID : String)
  /-- `TopicMembers().Update` of a row that was read earlier. -/
  | update (member : TopicMember)

inductive OwnerPc
  | start
  /-- The caller is an owner; the row of the member, or of the topic, is read. -/
  | authorized
  /-- `CountOwners`, then the write, unless there is only one owner. -/
  | counting (write : MemberWrite) (refusal : TopicError)
  | writing (write : MemberWrite)
  /-- `RestoreTopic`: `Topics().Update` follows. -/
  | activating (topic : Topic)
  /-- `RestoreTopic`: `ListByTopic` follows. -/
  | listing
  /-- `RestoreTopic`: the users whose rows are deleted next. -/
  | clearing (users : List String)
  | done (result : Except TopicError Unit)

structure OwnerCall where
  request : OwnerRequest
  pc : OwnerPc

def OwnerRequest.topicID : OwnerRequest → String
  | unsubscribe _ topicID | updateMemberRole topicID _ _ _ | removeMember topicID _ _
  | transferOwnership topicID _ _ | restoreTopic topicID _ => topicID

def MemberWrite.exec (now : Time) (store : Store) : MemberWrite → Except TopicError Unit × Store
  | delete topicID userID => (.ok (), deleteMember topicID userID store)
  | update member =>
    match updateMember now member store with
    | .error err => (.error err, store)
    | .ok store' => (.ok (), store')

/-- The first statement of a handler: whether the caller is an owner. -/
def OwnerRequest.check (store : Store) : OwnerRequest → OwnerPc
  | unsubscribe none _ => .done (.error .unauthenticated)
  | unsubscribe (some user) topicID =>
    if topicID = "" then
      .done (.error (.validation "topic_id is required" [("topic_id", "must not be empty")]))
    else if isOwner topicID user.id store then
      .counting (.delete topicID user.id) (.precondition "cannot unsubscribe as last owner"
        [("owner", "you are the last owner, transfer ownership first")])
    else .writing (.delete topicID user.id)
  | updateMemberRole topicID callerID _ _ | removeMember topicID callerID _
  | transferOwnership topicID callerID _ | restoreTopic topicID callerID =>
    if isOwner topicID callerID store then .authorized else .done (.error .notOwner)

/-- The second statement: the row that is going to be changed. -/
def OwnerRequest.fetch (store : Store) : OwnerRequest → OwnerPc
  | unsubscribe _ _ => .done (.error .unauthenticated)
  | updateMemberRole topicID _ memberID newRole =>
    match getMember topicID memberID store with
    | none => .done (.error .notOwner)
    | some member =>
      if member.role = .owner ∧ newRole ≠ .owner then
        .counting (.update { member with role := newRole }) .cannotRemoveLastOwner
      else .writing (.update { member with role := newRole })
  | removeMember topicID _ memberID =>
    match getMember topicID memberID store with
    | none => .done (.error .notOwner)
    | some member =>
      if member.role = .owner then .counting (.delete topicID memberID) .cannotRemoveLastOwner
      else .writing (.delete topicID memberID)
  | transferOwnership topicID _ toID =>
    match getMember topicID toID store with
    | none => .done (.error .ownerNotFound)
    | some member => .writing (.update { member with role := .owner })
  | restoreTopic topicID _ =>
    match getTopic topicID store with
    | none => .done (.error .notFound)
    | some topic =>
      if topic.status ≠ .deleted then .done (.error .invalidOperation) else .activating topic

def OwnerCall.step (now : Time) (call : OwnerCall) (store : Store) : OwnerCall × Store :=
  match call.pc with
  | .start => ({ call with pc := call.request.check store }, store)
  | .authorized => ({ call with pc := call.request.fetch store }, store)
  | .counting write refusal =>
    if countOwners call.request.topicID store ≤ 1 then
      ({ call with pc := .done (.error refusal) }, store)
    else ({ call with pc := .writing write }, store)
  | .writing write => ({ call with pc := .done (write.exec now store).1 }, (write.exec now store).2)
  | .activating topic =>
    match updateTopicRow { topic with status := .active, updatedAt := now } store with
    | .error err => ({ call with pc := .done (.error err) }, store)
    | .ok store' => ({ call with pc := .listing }, store')
  | .listing =>
    let others := (listByTopic call.request.topicID store).filter fun member => member.role ≠ .owner
    ({ call with pc := .clearing (others.map TopicMember.userID) }, store)
  | .clearing [] => ({ call with pc := .done (.ok ()) }, store)
  | .clearing (userID :: users) =>
    ({ call with pc := .clearing users }, deleteMember call.request.topicID userID store)
  | .done _ => (call, store)

def ownerMachine : Calls.Machine Store OwnerRequest OwnerCall Time where
  init request := { request, pc := .start }
  step := OwnerCall.step

abbrev OwnerWorld := Calls.World Store OwnerCall

/-! ### What a statement does to the members -/

def OwnerCall.nextWrite (call : OwnerCall) : Option MemberWrite :=
  match call.pc with
  | .writing write => some write
  | .clearing (userID :: _) => some (.delete call.request.topicID userID)
  | _ => none

theorem members_step (now : Time) (call : OwnerCall) (store : Store) :
    (call.step now store).2.members =
      match call.nextWrite with
      | none => store.members
      | some write => (write.exec now store).2.members := by
  obtain ⟨request, pc⟩ := call
  cases pc with
  | counting write refusal =>
    simp only [OwnerCall.step, OwnerCall.nextWrite]
    split <;> rfl
  | activating topic =>
    simp only [OwnerCall.step, OwnerCall.nextWrite]
    split
    · rfl
    next store' hu => rw [updateTopicRow_eq_ok hu]
  | clearing users => cases users <;> rfl
  | _ => rfl

theorem request_step (now : Time) (call : OwnerCall) (store : Store) :
    (call.step now store).1.request = call.request := by
  unfold OwnerCall.step
  split
  case h_3 | h_5 => split <;> rfl
  all_goals rfl

def HasOwner (topicID : String) (store : Store) : Prop := 0 < countOwners topicID store

instance (topicID : String) (store : Store) : Decidable (HasOwner topicID store) :=
  inferInstanceAs (Decidable (0 < countOwners topicID store))

variable {topicID : String} {store : Store}

theorem hasOwner_iff : HasOwner topicID store ↔
      ∃ row ∈ store.members.rows, row.topicID = topicID ∧ row.role = .owner := by
  simp [HasOwner, countOwners, countP_pos_iff]

def MemberWrite.hits (row : TopicMember) : MemberWrite → Bool
  | delete topicID userID => row.topicID = topicID && row.userID = userID
  | update member => member.role.isValid && member.role ≠ .owner && row.id = member.id

open MemberWrite (hits)

/-- The topic has an owner whose row the write does not take away. -/
def MemberWrite.spares (topicID : String) (store : Store) (write : MemberWrite) : Bool :=
  store.members.rows.any fun row => row.topicID = topicID && row.role = .owner && !write.hits row

theorem spares_iff {write : MemberWrite} :
    write.spares topicID store = true ↔ ∃ row ∈ store.members.rows,
      (row.topicID = topicID ∧ row.role = .owner) ∧ write.hits row = false := by
  simp [MemberWrite.spares, any_eq_true]

/-- A write that hits no owner of the topic spares the one that it has. -/
theorem spares_of_hits_no_owner {write : MemberWrite} (h : HasOwner topicID store)
    (hh : ∀ row ∈ store.members.rows, row.topicID = topicID → row.role = .owner → write.hits row = false) :
    write.spares topicID store = true := by
  obtain ⟨row, hrow, ht, hr⟩ := hasOwner_iff.mp h
  exact spares_iff.mpr ⟨row, hrow, ⟨ht, hr⟩, hh row hrow ht hr⟩

def updatedRow (now : Time) (member row : TopicMember) : TopicMember :=
  { row with
    role := member.role, acceptedAt := member.acceptedAt.map storedTime
    updatedAt := storedTime now }

/-- An `Update` changes nothing, or the row with its id. -/
theorem exec_update (now : Time) (member : TopicMember) (store : Store) :
    ((MemberWrite.update member).exec now store).2 = store ∨
      ∃ row, member.role.isValid = true ∧ store.members.find? member.id = some row ∧
        ((MemberWrite.update member).exec now store).2 =
          { store with members := store.members.put (updatedRow now member row) } := by
  cases hvalid : member.role.isValid with
  | false => exact .inl (by simp [MemberWrite.exec, updateMember, hvalid])
  | true =>
    cases hrow : store.members.find? member.id with
    | none => exact .inl (by simp [MemberWrite.exec, updateMember, hvalid, hrow])
    | some row =>
      exact .inr ⟨row, rfl, rfl, by simp [MemberWrite.exec, updateMember, hvalid, hrow, updatedRow]⟩

theorem hasOwner_exec (now : Time) {write : MemberWrite} (h : write.spares topicID store = true) :
    HasOwner topicID (write.exec now store).2 := by
  obtain ⟨row, hrow, ⟨ht, hr⟩, hs⟩ := spares_iff.mp h
  rw [hasOwner_iff]
  cases write with
  | delete topicID' userID =>
    refine ⟨row, mem_filter.mpr ⟨hrow, ?_⟩, ht, hr⟩
    simpa [hits, imp_iff_not_or] using hs
  | update member =>
    rcases exec_update now member store with he | ⟨old, hvalid, hold, he⟩
    · rw [he]
      exact ⟨row, hrow, ht, hr⟩
    · rw [he]
      by_cases hid : row.id = member.id
      · -- the row itself is updated, and stays an owner's
        have hm : member.role = .owner := by simpa [hits, hvalid, hid] using hs
        have heq : row = old := Option.some.inj ((mem_rows_iff.mp hrow).symm.trans (hid ▸ hold))
        exact ⟨updatedRow now member old, mem_put.mpr (.inl rfl), heq ▸ ht, hm⟩
      · exact ⟨row, mem_put.mpr (.inr ⟨hrow, (key_of_find? hold).symm ▸ hid⟩), ht, hr⟩

/-! ### Which rows a write touches -/

/-- A user has at most one row for a topic, as `UNIQUE(topic_id, user_id)` demands. -/
def UniqueMembers (store : Store) : Prop :=
  ∀ row ∈ store.members.rows, ∀ row' ∈ store.members.rows,
    row.topicID = row'.topicID → row.userID = row'.userID → row.id = row'.id

section Writes

variable {now : Time} {write : MemberWrite} {row : TopicMember}

/-- A row after a write was there before, or is the updated one. -/
theorem mem_exec (h : row ∈ (write.exec now store).2.members.rows) : row ∈ store.members.rows ∨
    ∃ member old, write = .update member ∧ store.members.find? member.id = some old ∧
      row = updatedRow now member old := by
  cases write with
  | delete topicID' userID => exact .inl (mem_of_mem_filter h)
  | update member =>
    rcases exec_update now member store with he | ⟨old, -, hold, he⟩
    · exact .inl (by rwa [he] at h)
    · rw [he] at h
      rcases mem_put.mp h with heq | ⟨hmem, -⟩
      · exact .inr ⟨member, old, rfl, hold, heq⟩
      · exact .inl hmem

/-- No write changes what a row is for. -/
theorem exists_of_mem_exec (h : row ∈ (write.exec now store).2.members.rows) :
    ∃ old ∈ store.members.rows, old.id = row.id ∧ old.topicID = row.topicID ∧ old.userID = row.userID := by
  rcases mem_exec h with hmem | ⟨member, old, -, hold, rfl⟩
  · exact ⟨row, hmem, rfl, rfl, rfl⟩
  · exact ⟨old, mem_of_find? hold, rfl, rfl, rfl⟩

theorem UniqueMembers.exec (h : UniqueMembers store) : UniqueMembers (write.exec now store).2 := by
  intro row hrow row' hrow' ht hu
  obtain ⟨old, hold, hid, hto, huo⟩ := exists_of_mem_exec hrow
  obtain ⟨old', hold', hid', hto', huo'⟩ := exists_of_mem_exec hrow'
  rw [← hid, ← hid']
  exact h old hold old' hold' (by rw [hto, hto', ht]) (by rw [huo, huo', hu])

theorem UniqueMembers.eq (h : UniqueMembers store) {row' : TopicMember} (hrow : row ∈ store.members.rows)
    (hrow' : row' ∈ store.members.rows) (ht : row.topicID = row'.topicID)
    (hu : row.userID = row'.userID) : row = row' :=
  eq_of_key_eq hrow hrow' (h row hrow row' hrow' ht hu)

/-- Of two owners a write spares one. -/
theorem spares_of_countOwners (hu : UniqueMembers store) (hc : ¬ countOwners topicID store ≤ 1) :
    write.spares topicID store = true := by
  rw [countOwners, countP_eq_length_filter] at hc
  have hnodup := store.members.rows_nodup.filter fun row => row.topicID = topicID && row.role = .owner
  have howner : ∀ {a}, a ∈ store.members.rows.filter (fun row => row.topicID = topicID && row.role = .owner) →
      a ∈ store.members.rows ∧ a.topicID = topicID ∧ a.role = .owner := by simp
  match hf : store.members.rows.filter fun row => row.topicID = topicID && row.role = .owner with
  | [] | [_] => simp [hf] at hc
  | a :: b :: rest =>
    rw [hf] at hnodup howner
    obtain ⟨ha, hat, har⟩ := howner mem_cons_self
    obtain ⟨hb, hbt, hbr⟩ := howner (mem_cons_of_mem _ mem_cons_self)
    have hab : a ≠ b := by simp at hnodup; exact hnodup.1.1
    -- no write hits both
    have hone : write.hits a = false ∨ write.hits b = false := by
      by_contra hboth
      simp only [not_or, Bool.not_eq_false] at hboth
      cases write with
      | delete topicID' userID =>
        simp only [hits, Bool.and_eq_true, decide_eq_true_eq] at hboth
        exact hab (hu.eq ha hb (hat.trans hbt.symm) (hboth.1.2.trans hboth.2.2.symm))
      | update member =>
        simp only [hits, Bool.and_eq_true, decide_eq_true_eq] at hboth
        exact hab (eq_of_key_eq ha hb (hboth.1.2.trans hboth.2.2.symm))
    rcases hone with hs | hs
    · exact spares_iff.mpr ⟨a, ha, ⟨hat, har⟩, hs⟩
    · exact spares_iff.mpr ⟨b, hb, ⟨hbt, hbr⟩, hs⟩

/-- The deletion of a row that is no owner's. -/
theorem spares_delete (hu : UniqueMembers store) (h : HasOwner topicID store) {topicID' userID : String}
    (hrole : ∀ member, getMember topicID' userID store = some member → member.role ≠ .owner) :
    (MemberWrite.delete topicID' userID).spares topicID store = true := by
  refine spares_of_hits_no_owner h fun row hrow _ hr => ?_
  by_contra hhit
  simp only [hits, Bool.not_eq_false, Bool.and_eq_true, decide_eq_true_eq] at hhit
  cases hg : getMember topicID' userID store with
  | none => exact absurd (find?_eq_none.mp hg row hrow) (by simp [hhit])
  | some member =>
    obtain ⟨hm, hmt, hmu⟩ := mem_of_getMember hg
    have heq := hu.eq hm hrow (hmt.trans hhit.1.symm) (hmu.trans hhit.2.symm)
    exact hrole member hg (heq ▸ hr)

end Writes

/-! ### What a call has read -/

/-- What a call knows between its last read and its write: an owner is left after the write. -/
def OwnerCall.Knows (store : Store) (call : OwnerCall) : Prop :=
  match call.pc with
  | .writing write => write.spares call.request.topicID store = true
  | .clearing users => ∀ row ∈ store.members.rows,
      row.topicID = call.request.topicID → row.role = .owner → row.userID ∉ users
  | _ => True

section Knows

variable {now : Time} {call : OwnerCall} {write : MemberWrite} {store' : Store}

theorem spares_nextWrite (h : call.Knows store) (ho : HasOwner call.request.topicID store)
    (hw : call.nextWrite = some write) : write.spares call.request.topicID store = true := by
  obtain ⟨request, pc⟩ := call
  cases pc with
  | writing write' =>
    cases hw
    exact h
  | clearing users =>
    cases users with
    | nil => cases hw
    | cons userID users =>
      cases hw
      refine spares_of_hits_no_owner ho fun row hrow hrt hr => ?_
      have hne : row.userID ≠ userID := fun heq => h row hrow hrt hr (heq ▸ mem_cons_self)
      simp [hits, hne]
  | _ => cases hw

/-- A call that is not about to write knows nothing that could be out of date. -/
theorem knows_of_nextWrite (h : call.nextWrite = none) (store : Store) : call.Knows store := by
  obtain ⟨request, pc⟩ := call
  cases pc with
  | writing write => cases h
  | clearing users =>
    cases users with
    | nil => exact fun _ _ _ _ => not_mem_nil
    | cons userID users => cases h
  | _ => trivial

theorem knows_congr (hm : store'.members = store.members) : call.Knows store' ↔ call.Knows store := by
  obtain ⟨request, pc⟩ := call
  cases pc with
  | writing write => simp [OwnerCall.Knows, MemberWrite.spares, hm]
  | clearing users => simp [OwnerCall.Knows, hm]
  | _ => exact Iff.rfl

theorem knows_check (request : OwnerRequest) (hu : UniqueMembers store)
    (ho : HasOwner request.topicID store) : OwnerCall.Knows store ⟨request, request.check store⟩ := by
  cases request with
  | unsubscribe user topicID =>
    cases user with
    | none => trivial
    | some user =>
      simp only [OwnerRequest.check]
      split
      · trivial
      · split
        · trivial
        next hrole =>
          refine spares_delete hu ho fun member hg hr => hrole ?_
          simp [isOwner, getRole, hg, hr]
  | _ =>
    simp only [OwnerRequest.check]
    split <;> trivial

theorem knows_fetch (request : OwnerRequest) (hu : UniqueMembers store)
    (ho : HasOwner request.topicID store) : OwnerCall.Knows store ⟨request, request.fetch store⟩ := by
  cases request with
  | unsubscribe user topicID => trivial
  | updateMemberRole topicID updaterID memberID newRole =>
    simp only [OwnerRequest.fetch]
    cases hg : getMember topicID memberID store with
    | none => trivial
    | some member =>
      dsimp only
      split
      · trivial
      next hrole =>
        refine spares_of_hits_no_owner ho fun row hrow _ hr => ?_
        by_contra hhit
        simp only [hits, Bool.not_eq_false, Bool.and_eq_true, decide_eq_true_eq, ne_eq,
          decide_not, Bool.not_eq_true', decide_eq_false_iff_not] at hhit
        have heq := eq_of_key_eq hrow (mem_of_getMember hg).1 hhit.2
        exact hrole ⟨heq ▸ hr, hhit.1.2⟩
  | removeMember topicID removerID memberID =>
    simp only [OwnerRequest.fetch]
    cases hg : getMember topicID memberID store with
    | none => trivial
    | some member =>
      dsimp only
      split
      · trivial
      next hrole =>
        refine spares_delete hu ho fun member' hg' => ?_
        rw [hg] at hg'
        cases hg'
        exact hrole
  | transferOwnership topicID callerID toID =>
    simp only [OwnerRequest.fetch]
    split
    · trivial
    · exact spares_of_hits_no_owner ho fun row _ _ _ => by simp [hits]
  | restoreTopic topicID ownerID =>
    simp only [OwnerRequest.fetch]
    split
    · trivial
    · split <;> trivial

/-- A step keeps what the call itself knows. -/
theorem knows_step (hu : UniqueMembers store) (ho : HasOwner call.request.topicID store)
    (h : call.Knows store) : (call.step now store).1.Knows (call.step now store).2 := by
  obtain ⟨request, pc⟩ := call
  cases pc with
  | start => exact knows_check request hu ho
  | authorized => exact knows_fetch request hu ho
  | counting write refusal =>
    simp only [OwnerCall.step]
    split
    · trivial
    next hc => exact spares_of_countOwners hu hc
  | activating topic =>
    simp only [OwnerCall.step]
    split <;> trivial
  | listing =>
    intro row hrow hrt hr hmem
    obtain ⟨other, hother, hid⟩ := mem_map.mp hmem
    simp only [listByTopic, filter_filter, mem_filter, Bool.and_eq_true, decide_eq_true_eq] at hother
    have heq := hu.eq hother.1 hrow (hother.2.2.trans hrt.symm) hid
    exact hother.2.1 (heq ▸ hr)
  | clearing users =>
    cases users with
    | nil => trivial
    | cons userID users =>
      exact fun row hrow hrt hr hmem => h row (mem_of_mem_filter hrow) hrt hr (mem_cons_of_mem _ hmem)
  | _ => trivial

end Knows

/-! ### Runs -/

/-- The condition on an event: the calls are on one topic, and no write to its members comes between the
last read and the write of another call. -/
def freshWrite (topicID : String) (w : OwnerWorld) : Calls.Event OwnerRequest Time → Bool
  | .start request => request.topicID = topicID
  | .run i _ =>
    match w.calls[i]? with
    | none => true
    | some call => call.nextWrite.isNone || (w.calls.eraseIdx i).all fun other => other.nextWrite.isNone

theorem hasOwner_congr {store' : Store}
    (h : store'.members = store.members) : HasOwner topicID store' ↔ HasOwner topicID store := by
  simp only [HasOwner, countOwners, h]

/-- There is an owner, and every call is on the topic and knows what it should. -/
structure OwnerInv (topicID : String) (w : OwnerWorld) : Prop where
  unique : UniqueMembers w.shared
  hasOwner : HasOwner topicID w.shared
  calls : ∀ call ∈ w.calls, call.request.topicID = topicID ∧ call.Knows w.shared

theorem OwnerInv.next {w : OwnerWorld} (h : OwnerInv topicID w) (event : Calls.Event OwnerRequest Time)
    (hok : freshWrite topicID w event = true) : OwnerInv topicID (ownerMachine.next w event) := by
  refine Calls.Machine.next_rule (OwnerInv topicID) h ?_ ?_
  · rintro request rfl
    refine ⟨h.unique, h.hasOwner, fun call hcall => ?_⟩
    rcases mem_append.mp hcall with hold | hnew
    · exact h.calls call hold
    · rw [mem_singleton.mp hnew]
      exact ⟨of_decide_eq_true hok, trivial⟩
  · rintro i now call rfl hg
    simp only [freshWrite, hg, Bool.or_eq_true, Option.isNone_iff_eq_none, all_eq_true] at hok
    obtain ⟨rfl, hknows⟩ := h.calls call (mem_of_getElem? hg)
    have hself : (call.step now w.shared).1.Knows (call.step now w.shared).2 :=
      knows_step h.unique h.hasOwner hknows
    have hrequest : (call.step now w.shared).1.request = call.request := request_step now call w.shared
    have hm := members_step now call w.shared
    show OwnerInv _ ⟨(call.step now w.shared).2, w.calls.set i (call.step now w.shared).1⟩
    have hcalls : (∀ j other, i ≠ j → w.calls[j]? = some other → other.Knows (call.step now w.shared).2) →
        ∀ other ∈ w.calls.set i (call.step now w.shared).1,
          other.request.topicID = call.request.topicID ∧ other.Knows (call.step now w.shared).2 := by
      intro hothers other hother
      obtain ⟨j, hj⟩ := mem_iff_getElem?.mp hother
      by_cases hij : i = j
      · rw [← hij, getElem?_set_self (List.getElem?_eq_some_iff.mp hg).1] at hj
        cases hj
        exact ⟨by rw [hrequest], hself⟩
      · rw [getElem?_set_ne hij] at hj
        exact ⟨(h.calls other (mem_of_getElem? hj)).1, hothers j other hij hj⟩
    cases hwrite : call.nextWrite with
    | none =>
      rw [hwrite] at hm
      refine ⟨?_, (hasOwner_congr hm).mpr h.hasOwner, hcalls fun j other _ hj => ?_⟩
      · simp only [UniqueMembers, hm]
        exact h.unique
      · exact (knows_congr hm).mpr (h.calls other (mem_of_getElem? hj)).2
    | some write =>
      rw [hwrite] at hm hok
      refine ⟨?_, ?_, hcalls fun j other hij hj => knows_of_nextWrite ?_ _⟩
      · simp only [UniqueMembers, hm]
        exact h.unique.exec
      · rw [hasOwner_congr hm]
        exact hasOwner_exec now (spares_nextWrite hknows h.hasOwner hwrite)
      · exact hok.resolve_left (Option.some_ne_none _) other
          (mem_eraseIdx_iff_getElem?.mpr ⟨j, Ne.symm hij, hj⟩)

/-- **A topic that has an owner keeps one** throughout every run of calls on it in which no write to its
members comes between the last read and the write of another call. -/
theorem owner_kept (topicID : String) (store : Store) (hunique : UniqueMembers store)
    (h : HasOwner topicID store) (events : List (Calls.Event OwnerRequest Time))
    (hok : Run.AllSteps ownerMachine.next (fun w event => freshWrite topicID w event = true)
      (.idle store) events) (n : Nat) :
    HasOwner topicID ((events.take n).foldl ownerMachine.next (.idle store)).shared := by
  have hinv := Run.invariant_of_allSteps (OwnerInv topicID) (fun _ event h hok => h.next event hok)
    ⟨hunique, h, fun call hcall => by cases hcall⟩ hok n
  exact hinv.hasOwner

def twoOwners : Store :=
  { Store.empty with
    members := (empty.put (selfMember "m1" "t" "ann" .owner 0)).put
      (selfMember "m2" "t" "bob" .owner 0) }

/-- Ann is removed, and then Bob is to be removed. -/
def removeBoth : List (Calls.Event OwnerRequest Time) :=
  [.start (.removeMember "t" "bob" "ann"), .run 0 1, .run 0 2, .run 0 3, .run 0 4,
    .start (.removeMember "t" "bob" "bob"), .run 1 5, .run 1 6, .run 1 7]

/-- Bob is refused and stays. -/
theorem owner_kept_one_leaves :
    (removeBoth.foldl ownerMachine.next (.idle twoOwners)).shared.members.rows.map TopicMember.userID =
        ["bob"] ∧
      HasOwner "t" ((removeBoth.take 9).foldl ownerMachine.next (.idle twoOwners)).shared :=
  ⟨by decide +kernel, owner_kept "t" twoOwners (by unfold UniqueMembers; decide +kernel) (by decide +kernel)
    removeBoth (by decide +kernel) 9⟩

/-- Ann and Bob remove each other: both count two owners before either of them writes. -/
theorem owners_remove_each_other : HasOwner "t" twoOwners ∧
    ¬HasOwner "t" ([.start (.removeMember "t" "ann" "bob"), .start (.removeMember "t" "bob" "ann"),
      .run 0 1, .run 1 1, .run 0 2, .run 1 2, .run 0 3, .run 1 3, .run 0 4, .run 1 4].foldl
        ownerMachine.next (.idle twoOwners)).shared := by
  decide +kernel

/-! ### Calls one after the other -/

/-- The handlers, each as one call. -/
def OwnerRequest.perform (now : Time) (store : Store) : OwnerRequest → Except TopicError Unit × Store
  | unsubscribe user topicID => Topics.unsubscribe user topicID store
  | updateMemberRole topicID updaterID memberID newRole =>
    Topics.updateMemberRole topicID updaterID memberID newRole now store
  | removeMember topicID removerID memberID => Topics.removeMember topicID removerID memberID store
  | transferOwnership topicID fromID toID =>
    Topics.transferOwnership topicID fromID toID now store
  | restoreTopic topicID ownerID => Topics.restoreTopic topicID ownerID now store

/-- A call at a statement, left alone, returns the result with the database. -/
def Returns (now : Time) (request : OwnerRequest) (pc : OwnerPc) (store : Store)
    (result : Except TopicError Unit × Store) : Prop :=
  ownerMachine.Reaches now (⟨request, pc⟩, store) (⟨request, .done result.1⟩, result.2)

section Returns

variable {now : Time} {request : OwnerRequest} {store : Store}
  {result : Except TopicError Unit × Store}

theorem returns_of_step {pc pc' : OwnerPc} {store' : Store}
    (hstep : OwnerCall.step now { request, pc } store = ({ request, pc := pc' }, store'))
    (h : Returns now request pc' store' result) : Returns now request pc store result := by
  refine .step ?_
  show ownerMachine.Reaches now (OwnerCall.step now { request, pc } store) _
  rw [hstep]
  exact h

theorem returns_writing (write : MemberWrite) : Returns now request (.writing write) store (write.exec now store) :=
  .step (.refl _)

theorem returns_counting (write : MemberWrite) (refusal : TopicError) :
    Returns now request (.counting write refusal) store
      (if countOwners request.topicID store ≤ 1 then (.error refusal, store)
        else write.exec now store) := by
  split_ifs with hc
  · exact returns_of_step (by simp [OwnerCall.step, hc]) (.refl _)
  · exact returns_of_step (by simp only [OwnerCall.step, if_neg hc]) (returns_writing write)

theorem returns_clearing (users : List String) : Returns now request (.clearing users) store
      (.ok (), users.foldl (fun store userID => deleteMember request.topicID userID store) store) := by
  induction users generalizing store with
  | nil => exact .step (.refl _)
  | cons userID users ih => exact .step ih

theorem returns_listing : Returns now request .listing store
      (.ok (), (listByTopic request.topicID store).foldl (fun store member =>
          if member.role ≠ .owner then deleteMember request.topicID member.userID store else store)
        store) := by
  have h : Returns now request _ store _ := returns_clearing
    (((listByTopic request.topicID store).filter fun member => member.role ≠ .owner).map
      TopicMember.userID)
  rw [foldl_map, foldl_filter] at h
  exact returns_of_step rfl (by simpa using h)

/-- The handlers that only an owner may call. -/
theorem returns_owner (topicID callerID : String)
    (h : Returns now request (request.fetch store) store result) : Returns now request
      (if isOwner topicID callerID store then .authorized else .done (.error .notOwner)) store
      (if !isOwner topicID callerID store then (.error .notOwner, store) else result) := by
  cases isOwner topicID callerID store with
  | false => exact .refl _
  | true => exact .step h

end Returns

/-- **A call that is not interrupted does what the handler does.** -/
theorem returns_perform (now : Time) (request : OwnerRequest) (store : Store) :
    Returns now request .start store (request.perform now store) := by
  refine returns_of_step rfl ?_
  cases request with
  | unsubscribe user topicID =>
    cases user with
    | none => exact .refl _
    | some user =>
      simp only [OwnerRequest.check, OwnerRequest.perform, unsubscribe]
      by_cases htopic : topicID = ""
      · simpa only [if_pos htopic] using .refl _
      · simp only [if_neg htopic]
        cases isOwner topicID user.id store with
        | false => exact returns_writing _
        | true =>
          simp only [Bool.true_and, decide_eq_true_eq]
          exact returns_counting _ _
  | updateMemberRole topicID updaterID memberID newRole =>
    refine returns_owner topicID updaterID ?_
    simp only [OwnerRequest.fetch]
    cases getMember topicID memberID store with
    | none => exact .refl _
    | some member =>
      simp only [← and_assoc]
      by_cases hg : member.role = .owner ∧ newRole ≠ .owner
      · rw [if_pos hg]
        simp only [hg.1, hg.2, ne_eq, not_false_eq_true, true_and]
        exact returns_counting _ _
      · rw [if_neg hg]
        simp only [hg, false_and]
        exact returns_writing _
  | removeMember topicID removerID memberID =>
    refine returns_owner topicID removerID ?_
    simp only [OwnerRequest.fetch]
    cases getMember topicID memberID store with
    | none => exact .refl _
    | some member =>
      by_cases howner : member.role = .owner
      · simp only [howner, true_and]
        exact returns_counting _ _
      · simp only [howner, false_and]
        exact returns_writing _
  | transferOwnership topicID fromID toID =>
    refine returns_owner topicID fromID ?_
    simp only [OwnerRequest.fetch]
    cases getMember topicID toID store with
    | none => exact .refl _
    | some member => exact returns_writing _
  | restoreTopic topicID ownerID =>
    refine returns_owner topicID ownerID ?_
    simp only [OwnerRequest.fetch]
    cases getTopic topicID store with
    | none => exact .refl _
    | some topic =>
      by_cases hd : topic.status ≠ .deleted
      · simpa only [if_pos hd] using .refl _
      · simp only [if_neg hd]
        cases hu : updateTopicRow { topic with status := .active, updatedAt := now } store with
        | error err =>
          exact returns_of_step (by simp only [OwnerCall.step, hu]) (.refl _)
        | ok store' =>
          exact returns_of_step (by simp only [OwnerCall.step, hu]) returns_listing

/-- So it does after any other calls, if none of them makes a step meanwhile. -/
theorem exists_run_perform (now : Time) (request : OwnerRequest) (w : OwnerWorld) :
    ∃ n, (.start request :: replicate n (.run w.calls.length now)).foldl ownerMachine.next w =
      ⟨(request.perform now w.shared).2,
        w.calls ++ [⟨request, .done (request.perform now w.shared).1⟩]⟩ :=
  (returns_perform now request w.shared).exists_run w.calls

end Bib.Topics
