import Bib.Lib.Run
import Bib.Topics.Store

/-!
# Bib.Topics.Membership

**Membership of topics** (`grpc/services/topic/membership.go`, and the handlers of
`grpc/services/topic/server.go` that create topics and members). Who may do what is decided by the role of the
caller at the moment of the call, except for invitations: they carry a role that an owner offered earlier.

The argument is one lemma for each handler: a member row that is new after a call is a viewer's, or the call
confers its role, and an invitation that is new was made by an owner (`Explained`).
-/

namespace Bib.Topics

open Bib.Domain Bib.Lib List Table

/-! ### Creating and joining topics -/

structure CreateTopicRequest where
  (name description schema : String)
  tags : List String
  metadata : List (String × String)

/-- The member row that `CreateTopic` and `Subscribe` write for the caller. -/
def selfMember (id topicID userID : String) (role : TopicMemberRole) (now : Time) : TopicMember :=
  { id, topicID, userID, role, invitedBy := userID, invitedAt := now, acceptedAt := some now
    createdAt := now, updatedAt := now }

/-- `CreateTopic`; `topicID` and `memberID` are the generated ids. -/
def createTopic (user : Option User) (req : CreateTopicRequest) (topicID memberID : String) (now : Time)
    (store : Store) : Except TopicError Topic × Store :=
  if req.name = "" then
    (.error (.validation "name is required" [("name", "must not be empty")]), store)
  else
    match user with
    | none => (.error .unauthenticated, store)
    | some user =>
      if (getTopicByName req.name store).isSome then
        (.error (.validation "topic already exists"
          [("name", "a topic with this name already exists")]), store)
      else
        let topic : Topic :=
          { id := topicID, name := req.name, description := req.description
            tableSchema := req.schema, status := .active, owners := [user.id], createdBy := user.id
            createdAt := now, updatedAt := now, datasetCount := 0, tags := req.tags
            metadata := req.metadata }
        match createTopicRow topic store with
        | .error err => (.error err, store)
        | .ok store₁ =>
          -- an error of this call is dropped
          match createMember (selfMember memberID topicID user.id .owner now) store₁ with
          | .error _ => (.ok topic, store₁)
          | .ok store₂ => (.ok topic, store₂)

def isPublicTopic (topic : Topic) : Bool :=
  match topic.metadata.lookup "is_public", topic.metadata.lookup "public" with
  | some val, _ => val = "true"
  | none, some val => val = "true"
  | none, none => true

def canAccessTopic (topic : Topic) (user : User) (store : Store) : Bool :=
  isPublicTopic topic || user.role = .admin || hasAccess topic.id user.id store

def subscribe (user : Option User) (topicID topicName memberID : String) (now : Time)
    (store : Store) : Except TopicError TopicMember × Store :=
  match user with
  | none => (.error .unauthenticated, store)
  | some user =>
    if topicID = "" ∧ topicName = "" then
      (.error (.validation "topic_id or topic_name is required"
        [("topic_id", "either topic_id or topic_name must be provided"),
          ("topic_name", "either topic_id or topic_name must be provided")]), store)
    else
      match if topicID ≠ "" then getTopic topicID store else getTopicByName topicName store with
      | none => (.error .notFound, store)
      | some topic =>
        if !canAccessTopic topic user store then
          (.error (.permissionDenied "subscribe" "topic" "member"), store)
        else
          match getMember topic.id user.id store with
          | some existing => (.ok existing, store)
          | none =>
            let member := selfMember memberID topic.id user.id .viewer now
            match createMember member store with
            | .error err => (.error err, store)
            | .ok store' => (.ok member, store')

def unsubscribe (user : Option User) (topicID : String) (store : Store) : Except TopicError Unit × Store :=
  match user with
  | none => (.error .unauthenticated, store)
  | some user =>
    if topicID = "" then
      (.error (.validation "topic_id is required" [("topic_id", "must not be empty")]), store)
    else if isOwner topicID user.id store && countOwners topicID store ≤ 1 then
      (.error (.precondition "cannot unsubscribe as last owner"
        [("owner", "you are the last owner, transfer ownership first")]), store)
    else (.ok (), deleteMember topicID user.id store)

def deleteTopic (user : Option User) (topicID : String) (force : Bool) (now : Time) (store : Store) :
    Except TopicError Unit × Store :=
  if topicID = "" then (.error (.validation "id is required" [("id", "must not be empty")]), store)
  else
    match getTopic topicID store with
    | none => (.error .notFound, store)
    | some topic =>
      match user with
      | none => (.error .unauthenticated, store)
      | some user =>
        if !isOwner topic.id user.id store then
          (.error (.permissionDenied "delete" "topic" "owner"), store)
        else if topic.datasetCount > 0 ∧ !force then
          (.error (.precondition "topic has datasets"
            [("dataset_count", "topic has datasets, use force=true to delete anyway")]), store)
        else
          match deleteTopicRow topic.id now store with
          | .error err => (.error err, store)
          | .ok store' => (.ok (), store')

/-! ### Invitations -/

structure InviteMemberRequest where
  (topicID inviterID inviteeEmail inviteeID : String)
  role : TopicMemberRole
  message : String
  expiresIn : Int

/-- `InviteMember`; `id` and `token` are generated. -/
def inviteMember (req : InviteMemberRequest) (id token : String) (now : Time) (store : Store) :
    Except TopicError TopicInvitation × Store :=
  if !isOwner req.topicID req.inviterID store then (.error .notOwner, store)
  else if req.inviteeEmail = "" ∧ req.inviteeID = "" then (.error .invalidOperation, store)
  else if req.inviteeID ≠ "" ∧ hasAccess req.topicID req.inviteeID store then
    (.error .userExists, store)
  else
    let invitation : TopicInvitation :=
      { id, topicID := req.topicID, inviterID := req.inviterID, inviteeEmail := req.inviteeEmail
        inviteeUserID := req.inviteeID, role := req.role, token, message := req.message
        status := .pending
        expiresAt := now + if req.expiresIn = 0 then 7 * 24 * 3600 * 1000000000 else req.expiresIn
        createdAt := now, respondedAt := none }
    match createInvitation invitation store with
    | .error err => (.error err, store)
    | .ok store' => (.ok invitation, store')

def TopicInvitation.answer (invitation : TopicInvitation) (status : InvitationStatus) (now : Time) :
    TopicInvitation :=
  { invitation with status, respondedAt := some now }

/-- `AcceptInvitation`; `memberID` is generated. An invitation that has run out is marked, and the call
fails. -/
def acceptInvitation (token userID memberID : String) (now : Time) (store : Store) :
    Except TopicError TopicMember × Store :=
  match getInvitationByToken token store with
  | none => (.error .ownerNotFound, store)
  | some invitation =>
    if invitation.status ≠ .pending then (.error .invalidOperation, store)
    else if now > invitation.expiresAt then
      (.error .sessionExpired, updateInvitation (invitation.answer .expired now) store)
    else if invitation.inviteeUserID ≠ "" ∧ invitation.inviteeUserID ≠ userID then
      (.error .unauthorized, store)
    else
      let member : TopicMember :=
        { id := memberID, topicID := invitation.topicID, userID, role := invitation.role
          invitedBy := invitation.inviterID, invitedAt := invitation.createdAt, acceptedAt := some now
          createdAt := now, updatedAt := now }
      match createMember member store with
      | .error err => (.error err, store)
      | .ok store' => (.ok member, updateInvitation (invitation.answer .accepted now) store')

def declineInvitation (token userID : String) (now : Time) (store : Store) : Except TopicError Unit × Store :=
  match getInvitationByToken token store with
  | none => (.error .ownerNotFound, store)
  | some invitation =>
    if invitation.status ≠ .pending then (.error .invalidOperation, store)
    else if invitation.inviteeUserID ≠ "" ∧ invitation.inviteeUserID ≠ userID then
      (.error .unauthorized, store)
    else (.ok (), updateInvitation (invitation.answer .declined now) store)

def cancelInvitation (invitationID cancellerID : String) (now : Time) (store : Store) :
    Except TopicError Unit × Store :=
  match getInvitation invitationID store with
  | none => (.error .ownerNotFound, store)
  | some invitation =>
    if invitation.inviterID ≠ cancellerID ∧ !isOwner invitation.topicID cancellerID store then
      (.error .notOwner, store)
    else if invitation.status ≠ .pending then (.error .invalidOperation, store)
    else (.ok (), updateInvitation (invitation.answer .cancelled now) store)

/-! ### Roles -/

def updateMemberRole (topicID updaterID memberID : String) (newRole : TopicMemberRole) (now : Time)
    (store : Store) : Except TopicError Unit × Store :=
  if !isOwner topicID updaterID store then (.error .notOwner, store)
  else
    match getMember topicID memberID store with
    | none => (.error .notOwner, store)
    | some member =>
      if member.role = .owner ∧ newRole ≠ .owner ∧ countOwners topicID store ≤ 1 then
        (.error .cannotRemoveLastOwner, store)
      else
        match updateMember now { member with role := newRole, updatedAt := now } store with
        | .error err => (.error err, store)
        | .ok store' => (.ok (), store')

def removeMember (topicID removerID memberID : String) (store : Store) : Except TopicError Unit × Store :=
  if !isOwner topicID removerID store then (.error .notOwner, store)
  else
    match getMember topicID memberID store with
    | none => (.error .notOwner, store)
    | some member =>
      if member.role = .owner ∧ countOwners topicID store ≤ 1 then
        (.error .cannotRemoveLastOwner, store)
      else (.ok (), deleteMember topicID memberID store)

/-- `TransferOwnership`; the previous owner keeps the role. -/
def transferOwnership (topicID fromID toID : String) (now : Time) (store : Store) : Except TopicError Unit × Store :=
  if !isOwner topicID fromID store then (.error .notOwner, store)
  else
    match getMember topicID toID store with
    | none => (.error .ownerNotFound, store)
    | some member =>
      match updateMember now { member with role := .owner, updatedAt := now } store with
      | .error err => (.error err, store)
      | .ok store' => (.ok (), store')

/-- `RestoreTopic`: the topic is active again, and everybody but the owners has to join again. -/
def restoreTopic (topicID ownerID : String) (now : Time) (store : Store) : Except TopicError Unit × Store :=
  if !isOwner topicID ownerID store then (.error .notOwner, store)
  else
    match getTopic topicID store with
    | none => (.error .notFound, store)
    | some topic =>
      if topic.status ≠ .deleted then (.error .invalidOperation, store)
      else
        match updateTopicRow { topic with status := .active, updatedAt := now } store with
        | .error err => (.error err, store)
        | .ok store' =>
          (.ok (), (listByTopic topicID store').foldl
            (fun store member =>
              if member.role ≠ .owner then deleteMember topicID member.userID store else store)
            store')

/-! ### Calls -/

inductive Call
  | createTopic (user : Option User) (req : CreateTopicRequest) (topicID memberID : String) (now : Time)
  | subscribe (user : Option User) (topicID topicName memberID : String) (now : Time)
  | unsubscribe (user : Option User) (topicID : String)
  | deleteTopic (user : Option User) (topicID : String) (force : Bool) (now : Time)
  | inviteMember (req : InviteMemberRequest) (id token : String) (now : Time)
  | acceptInvitation (token userID memberID : String) (now : Time)
  | declineInvitation (token userID : String) (now : Time)
  | cancelInvitation (invitationID cancellerID : String) (now : Time)
  | updateMemberRole (topicID updaterID memberID : String) (newRole : TopicMemberRole) (now : Time)
  | removeMember (topicID removerID memberID : String)
  | transferOwnership (topicID fromID toID : String) (now : Time)
  | restoreTopic (topicID ownerID : String) (now : Time)

/-- Whether a call succeeds, and the database after it. -/
def Call.perform (store : Store) (call : Call) : Bool × Store :=
  let succeeded {A : Type} (result : Except TopicError A × Store) := (result.1.isOk, result.2)
  match call with
  | createTopic user req topicID memberID now =>
    succeeded (Topics.createTopic user req topicID memberID now store)
  | subscribe user topicID topicName memberID now =>
    succeeded (Topics.subscribe user topicID topicName memberID now store)
  | unsubscribe user topicID => succeeded (Topics.unsubscribe user topicID store)
  | deleteTopic user topicID force now => succeeded (Topics.deleteTopic user topicID force now store)
  | inviteMember req id token now => succeeded (Topics.inviteMember req id token now store)
  | acceptInvitation token userID memberID now =>
    succeeded (Topics.acceptInvitation token userID memberID now store)
  | declineInvitation token userID now => succeeded (Topics.declineInvitation token userID now store)
  | cancelInvitation invitationID cancellerID now =>
    succeeded (Topics.cancelInvitation invitationID cancellerID now store)
  | updateMemberRole topicID updaterID memberID newRole now =>
    succeeded (Topics.updateMemberRole topicID updaterID memberID newRole now store)
  | removeMember topicID removerID memberID =>
    succeeded (Topics.removeMember topicID removerID memberID store)
  | transferOwnership topicID fromID toID now =>
    succeeded (Topics.transferOwnership topicID fromID toID now store)
  | restoreTopic topicID ownerID now => succeeded (Topics.restoreTopic topicID ownerID now store)

def step (store : Store) (call : Call) : Store := (call.perform store).2

def run (calls : List Call) : Store := calls.foldl step .empty

/-! ### How roles come about -/

/-- In the history, the call was made right after the calls `earlier`, and it succeeded. -/
def Happened (calls earlier : List Call) (call : Call) : Prop :=
  earlier ++ [call] <+: calls ∧ (call.perform (run earlier)).1 = true

/-- The ways in which a user can have come to a role in a topic. -/
inductive Conferred (calls : List Call) (topicID userID : String) (role : TopicMemberRole) : Prop
  /-- The user created the topic. -/
  | created {earlier : List Call} {user : User} {req : CreateTopicRequest} {memberID : String}
      {now : Time} (h : Happened calls earlier (.createTopic (some user) req topicID memberID now))
      (huser : user.id = userID)
  /-- Somebody who was an owner set the role. -/
  | updated {earlier : List Call} {updaterID : String} {now : Time}
      (h : Happened calls earlier (.updateMemberRole topicID updaterID userID role now))
      (howner : isOwner topicID updaterID (run earlier) = true)
  /-- Somebody who was an owner transferred the ownership. -/
  | transferred {earlier : List Call} {fromID : String} {now : Time}
      (h : Happened calls earlier (.transferOwnership topicID fromID userID now))
      (howner : isOwner topicID fromID (run earlier) = true) (hrole : role = .owner)
  /-- The user accepted an invitation with the role, made by somebody who was an owner then. -/
  | accepted {earlier evenEarlier : List Call} {token memberID id : String} {now then' : Time}
      {req : InviteMemberRequest}
      (h : Happened calls earlier (.acceptInvitation token userID memberID now))
      (hinvited : Happened earlier evenEarlier (.inviteMember req id token then'))
      (htopic : req.topicID = topicID) (hrole : req.role = role)
      (howner : isOwner topicID req.inviterID (run evenEarlier) = true)

/-! ### One call -/

/-- The call gives the role that a member row holds. -/
def Confers (store : Store) (call : Call) (row : TopicMember) : Prop :=
  match call with
  | .createTopic user _ topicID _ _ => ∃ u, user = some u ∧ row.topicID = topicID ∧ row.userID = u.id
  | .acceptInvitation token userID _ _ => ∃ invitation ∈ store.invitations.rows,
      invitation.token = token ∧ row.topicID = invitation.topicID ∧ row.userID = userID ∧
      row.role = invitation.role
  | .updateMemberRole topicID updaterID memberID newRole _ =>
    isOwner topicID updaterID store = true ∧
    row.topicID = topicID ∧ row.userID = memberID ∧ row.role = newRole
  | .transferOwnership topicID fromID toID _ => isOwner topicID fromID store = true ∧
      row.topicID = topicID ∧ row.userID = toID ∧ row.role = .owner
  | _ => False

/-- The call makes the offer of an invitation, on behalf of an owner. -/
def Offers (store : Store) (call : Call) (invitation : TopicInvitation) : Prop :=
  match call with
  | .inviteMember req _ token _ => isOwner req.topicID req.inviterID store = true ∧
      invitation.topicID = req.topicID ∧ invitation.inviterID = req.inviterID ∧
      invitation.role = req.role ∧ invitation.token = token
  | _ => False

/-- What a call can do: a member row after it was there before, is a viewer's, or has its role by the
call; an invitation after it was there before, answered or not, or is made by the call. -/
structure Explained (store : Store) (call : Call) (succeeded : Bool) (store' : Store) : Prop where
  members : ∀ row ∈ store'.members.rows, row ∈ store.members.rows ∨ row.role = .viewer ∨
    (succeeded = true ∧ Confers store call row)
  invitations : ∀ invitation ∈ store'.invitations.rows,
    (∃ old ∈ store.invitations.rows, SameOffer invitation old) ∨
    (succeeded = true ∧ Offers store call invitation)

section Handlers

variable {store store' : Store} {call : Call} {succeeded : Bool}

theorem Explained.of_fewer (hm : ∀ row ∈ store'.members.rows, row ∈ store.members.rows)
    (hi : store'.invitations = store.invitations) : Explained store call succeeded store' where
  members row hrow := .inl (hm row hrow)
  invitations invitation h := .inl ⟨invitation, hi ▸ h, rfl, rfl, rfl, rfl⟩

theorem Explained.refl : Explained store call succeeded store := .of_fewer (fun _ hrow => hrow) rfl

theorem Explained.of_answered (invitation : TopicInvitation) :
    Explained store call succeeded (updateInvitation invitation store) where
  members row hrow := by
    rw [members_updateInvitation] at hrow
    exact .inl hrow
  invitations _ h := .inl (mem_updateInvitation h)

/-- A call whose member rows are explained and that leaves the invitations alone. -/
theorem Explained.of_members (hm : ∀ row ∈ store'.members.rows, row ∈ store.members.rows ∨
      row.role = .viewer ∨ (succeeded = true ∧ Confers store call row))
    (hi : store'.invitations = store.invitations) : Explained store call succeeded store' where
  members := hm
  invitations := (Explained.of_fewer (fun _ hrow => hrow) hi :
    Explained store call succeeded { store with invitations := store'.invitations }).invitations

abbrev ExplainedBy {A : Type} (store : Store) (call : Call) (result : Except TopicError A × Store) : Prop :=
  Explained store call result.1.isOk result.2

variable (user : Option User) (topicID userID memberID token : String) (now : Time)

-- in each handler the branches that fail leave the tables alone; the others are named

theorem explained_createTopic (req : CreateTopicRequest) (store : Store) :
    ExplainedBy store (.createTopic user req topicID memberID now)
      (createTopic user req topicID memberID now store) := by
  unfold createTopic
  dsimp only
  repeat' split
  any_goals exact .refl
  next hrow _ _ _ =>
    rw [createTopicRow_eq_ok hrow]
    exact .of_fewer (fun _ h => h) rfl
  next u _ _ store₁ hrow _ store₂ hm =>
    obtain ⟨row, rfl, htopic, huser, -⟩ := createMember_eq_ok hm
    rw [createTopicRow_eq_ok hrow] at *
    refine .of_members (fun row h => ?_) rfl
    rcases mem_put.mp h with rfl | ⟨hold, -⟩
    · exact .inr (.inr ⟨rfl, u, rfl, htopic, huser⟩)
    · exact .inl hold

theorem explained_subscribe (topicName : String) (store : Store) :
    ExplainedBy store (.subscribe user topicID topicName memberID now)
      (subscribe user topicID topicName memberID now store) := by
  unfold subscribe
  dsimp only
  repeat' split
  any_goals exact .refl
  next hm =>
    obtain ⟨row, rfl, -, -, hrole⟩ := createMember_eq_ok hm
    refine .of_members (fun row h => ?_) rfl
    rcases mem_put.mp h with rfl | ⟨hold, -⟩
    · exact .inr (.inl hrole)
    · exact .inl hold

theorem explained_deleteTopic (force : Bool) (store : Store) :
    ExplainedBy store (.deleteTopic user topicID force now) (deleteTopic user topicID force now store) := by
  unfold deleteTopic
  repeat' split
  any_goals exact .refl
  next hrow =>
    rw [deleteTopicRow_eq_ok hrow]
    exact .of_fewer (fun _ h => h) rfl

theorem explained_inviteMember (req : InviteMemberRequest) (id : String) (store : Store) :
    ExplainedBy store (.inviteMember req id token now) (inviteMember req id token now store) := by
  unfold inviteMember
  generalize (if req.expiresIn = 0 then _ else req.expiresIn) = expiresIn
  dsimp only
  repeat' split
  any_goals exact .refl
  next howner _ _ _ _ hrow =>
    obtain ⟨row, rfl, htopic, hi, hrole, ht⟩ := createInvitation_eq_ok hrow
    refine ⟨fun row h => .inl h, fun invitation h => ?_⟩
    rcases mem_put.mp h with rfl | ⟨hold, -⟩
    · exact .inr ⟨rfl, by simpa using howner, htopic, hi, hrole, ht⟩
    · exact .inl ⟨invitation, hold, rfl, rfl, rfl, rfl⟩

theorem explained_acceptInvitation (store : Store) :
    ExplainedBy store (.acceptInvitation token userID memberID now)
      (acceptInvitation token userID memberID now store) := by
  unfold acceptInvitation
  dsimp only
  repeat' split
  any_goals exact .refl
  next => exact .of_answered _
  next invitation hg _ _ _ _ _ hm =>
    obtain ⟨row, rfl, htopic, huser, hrole⟩ := createMember_eq_ok hm
    obtain ⟨hmem, ht⟩ := mem_of_getInvitationByToken hg
    refine ⟨fun row h => ?_, fun answered h => ?_⟩
    · rw [members_updateInvitation] at h
      rcases mem_put.mp h with rfl | ⟨hold, -⟩
      · exact .inr (.inr ⟨rfl, invitation, hmem, ht, htopic, huser, hrole⟩)
      · exact .inl hold
    · obtain ⟨old, hold, ho⟩ := mem_updateInvitation h
      exact .inl ⟨old, hold, ho⟩

theorem explained_updateMember {member : TopicMember} {role : TopicMemberRole}
    (hg : getMember topicID memberID store = some member)
    (hrow : updateMember now { member with role := role, updatedAt := now } store = .ok store')
    (hc : ∀ row : TopicMember, row.topicID = topicID → row.userID = memberID → row.role = role →
      Confers store call row) : Explained store call true store' := by
  obtain ⟨hmem, htopic, huser⟩ := mem_of_getMember hg
  obtain ⟨row, rfl, ht', hu', hrole⟩ := updateMember_eq_ok hrow hmem rfl
  refine .of_members (fun row h => ?_) rfl
  rcases mem_put.mp h with rfl | ⟨hold, -⟩
  · exact .inr (.inr ⟨rfl, hc row (ht'.trans htopic) (hu'.trans huser) hrole⟩)
  · exact .inl hold

theorem explained_updateMemberRole (newRole : TopicMemberRole) (store : Store) :
    ExplainedBy store (.updateMemberRole topicID userID memberID newRole now)
      (updateMemberRole topicID userID memberID newRole now store) := by
  unfold updateMemberRole
  repeat' split
  any_goals exact .refl
  next howner _ _ hg _ _ _ hrow =>
    exact explained_updateMember _ _ _ hg hrow fun _ htopic huser hrole =>
      ⟨by simpa using howner, htopic, huser, hrole⟩

theorem explained_transferOwnership (store : Store) :
    ExplainedBy store (.transferOwnership topicID userID memberID now)
      (transferOwnership topicID userID memberID now store) := by
  unfold transferOwnership
  repeat' split
  any_goals exact .refl
  next howner _ _ hg _ _ hrow =>
    exact explained_updateMember _ _ _ hg hrow fun _ htopic huser hrole =>
      ⟨by simpa using howner, htopic, huser, hrole⟩

theorem foldl_deleteMember (members : List TopicMember) (store : Store) :
    let store' := members.foldl (fun store member =>
      if member.role ≠ .owner then deleteMember topicID member.userID store else store) store
    (∀ row ∈ store'.members.rows, row ∈ store.members.rows) ∧
      store'.invitations = store.invitations := by
  induction members generalizing store with
  | nil => exact ⟨fun row hrow => hrow, rfl⟩
  | cons member members ih =>
    rw [foldl_cons]
    by_cases hrole : member.role ≠ .owner
    · rw [if_pos hrole]
      obtain ⟨hr, hi⟩ := ih (deleteMember topicID member.userID store)
      exact ⟨fun row hrow => List.mem_of_mem_filter (hr row hrow), hi⟩
    · rw [if_neg hrole]
      exact ih store

theorem explained_restoreTopic (store : Store) :
    ExplainedBy store (.restoreTopic topicID userID now) (restoreTopic topicID userID now store) := by
  unfold restoreTopic
  repeat' split
  any_goals exact .refl
  next store' hrow =>
    obtain ⟨hr, hs⟩ := foldl_deleteMember topicID (listByTopic topicID store') store'
    rw [updateTopicRow_eq_ok hrow] at hr hs ⊢
    exact .of_fewer hr hs

end Handlers

theorem explained_step (store : Store) (call : Call) :
    Explained store call (call.perform store).1 (step store call) := by
  cases call with
  | createTopic => exact explained_createTopic ..
  | subscribe => exact explained_subscribe ..
  | deleteTopic => exact explained_deleteTopic ..
  | inviteMember => exact explained_inviteMember ..
  | acceptInvitation => exact explained_acceptInvitation ..
  | updateMemberRole => exact explained_updateMemberRole ..
  | transferOwnership => exact explained_transferOwnership ..
  | restoreTopic => exact explained_restoreTopic ..
  | unsubscribe | removeMember =>
    simp only [step, Call.perform, unsubscribe, removeMember]
    repeat' split
    any_goals exact .refl
    exact .of_fewer (fun _ => mem_of_mem_filter) rfl
  | declineInvitation | cancelInvitation =>
    simp only [step, Call.perform, declineInvitation, cancelInvitation]
    repeat' split
    any_goals exact .refl
    exact .of_answered _

/-! ### Histories -/

/-- Somebody who was an owner made the offer of the invitation. -/
def Offered (calls : List Call) (invitation : TopicInvitation) : Prop :=
  ∃ earlier req id now, Happened calls earlier (.inviteMember req id invitation.token now) ∧
    req.topicID = invitation.topicID ∧ req.role = invitation.role ∧
    isOwner invitation.topicID req.inviterID (run earlier) = true

/-- What holds of the tables after a history of calls. -/
structure HistoryInv (calls : List Call) (store : Store) : Prop where
  members : ∀ row ∈ store.members.rows, row.role ≠ .viewer →
    Conferred calls row.topicID row.userID row.role
  invitations : ∀ invitation ∈ store.invitations.rows, Offered calls invitation

variable {calls : List Call} {call : Call}

theorem Happened.mono {earlier : List Call} (h : Happened calls earlier call)
    (last : Call) : Happened (calls ++ [last]) earlier call :=
  ⟨h.1.trans (prefix_append calls [last]), h.2⟩

theorem Conferred.mono {topicID userID : String} {role : TopicMemberRole}
    (h : Conferred calls topicID userID role) (last : Call) :
    Conferred (calls ++ [last]) topicID userID role := by
  cases h with
  | created h huser => exact .created (h.mono last) huser
  | updated h howner => exact .updated (h.mono last) howner
  | transferred h howner hrole => exact .transferred (h.mono last) howner hrole
  | accepted h hinvited htopic hrole howner => exact .accepted (h.mono last) hinvited htopic hrole howner

theorem Offered.of_sameOffer {invitation old : TopicInvitation}
    (h : Offered calls old) (hs : SameOffer invitation old) : Offered calls invitation := by
  obtain ⟨earlier, req, id, now, hcall, htopic, hrole, howner⟩ := h
  obtain ⟨hto', -, hr', ht⟩ := hs
  exact ⟨earlier, req, id, now, ht ▸ hcall, htopic.trans hto'.symm, hrole.trans hr'.symm, hto' ▸ howner⟩

theorem Confers.conferred {row : TopicMember}
    (ho : ∀ invitation ∈ (run calls).invitations.rows, Offered calls invitation)
    (hok : (call.perform (run calls)).1 = true) (h : Confers (run calls) call row) :
    Conferred (calls ++ [call]) row.topicID row.userID row.role := by
  have hlast : Happened (calls ++ [call]) calls call := ⟨prefix_rfl, hok⟩
  cases call with
  | createTopic user req topicID memberID now =>
    obtain ⟨u, rfl, rfl, huser⟩ := h
    exact .created hlast huser.symm
  | acceptInvitation token userID memberID now =>
    obtain ⟨invitation, hmem, rfl, htopic, rfl, hrole⟩ := h
    obtain ⟨earlier, req, id, issued, hinvited, ht', hr', howner⟩ := ho invitation hmem
    exact .accepted hlast hinvited (ht'.trans htopic.symm) (hr'.trans hrole.symm) (htopic ▸ howner)
  | updateMemberRole topicID updaterID memberID newRole now =>
    obtain ⟨howner, rfl, rfl, rfl⟩ := h
    exact .updated hlast howner
  | transferOwnership topicID fromID toID now =>
    obtain ⟨howner, rfl, rfl, hrole⟩ := h
    exact .transferred hlast howner hrole
  | _ => exact h.elim

theorem historyInv_step (calls : List Call) (call : Call) (h : HistoryInv calls (run calls)) :
    HistoryInv (calls ++ [call]) (step (run calls) call) := by
  obtain ⟨hm, hi⟩ := explained_step (run calls) call
  refine ⟨fun row hrow hrole => ?_, fun invitation hmem => ?_⟩
  · rcases hm row hrow with hold | hv | ⟨hok, hc⟩
    · exact (h.members row hold hrole).mono call
    · exact absurd hv hrole
    · exact hc.conferred h.invitations hok
  · rcases hi invitation hmem with ⟨old, hold, hs⟩ | ⟨hok, ho⟩
    · obtain ⟨earlier, req, id, now, hcall, hrest⟩ := (h.invitations old hold).of_sameOffer hs
      exact ⟨earlier, req, id, now, hcall.mono call, hrest⟩
    · cases call with
      | inviteMember req id token now =>
        obtain ⟨howner, htopic, -, hrole, rfl⟩ := ho
        exact ⟨calls, req, id, now, ⟨prefix_rfl, hok⟩, htopic.symm, hrole.symm, htopic ▸ howner⟩
      | _ => exact ho.elim

theorem historyInv_run (calls : List Call) : HistoryInv calls (run calls) :=
  Run.history_invariant HistoryInv ⟨fun _ h => absurd h not_mem_nil, fun _ h => absurd h not_mem_nil⟩
    historyInv_step calls

/-- No privilege escalation: after every history of calls by any users, whoever is an owner or an editor
of a topic has come to that role in one of the four ways. -/
theorem no_privilege_escalation (calls : List Call) (topicID userID : String)
    (role : TopicMemberRole) (hholds : getRole topicID userID (run calls) = some role)
    (hrole : role = .owner ∨ role = .editor) : Conferred calls topicID userID role := by
  obtain ⟨row, hm, rfl⟩ := Option.map_eq_some_iff.mp hholds
  obtain ⟨hrow, rfl, rfl⟩ := mem_of_getMember hm
  refine (historyInv_run calls).members row hrow fun hv => ?_
  rw [hv] at hrole
  rcases hrole with h | h <;> cases h

/-- **Roles and invitations have an origin** after every history: a call that conferred it, or an owner's offer. -/
theorem history_explained (calls : List Call) : HistoryInv calls (run calls) :=
  historyInv_run calls

def sampleUser (id : String) : User :=
  { id, publicKey := [], keyType := .ed25519, publicKeyFingerprint := "", name := id, email := ""
    status := .active, role := .user, locale := "", createdAt := 0, updatedAt := 0
    lastLoginAt := none }

/-- A founder creates a topic, invites a guest as an editor and hands the topic over to an heir; the
heir removes the founder, and only then the guest accepts. -/
def sampleCalls : List Call :=
  [.createTopic (some (sampleUser "founder"))
      { name := "weather", description := "", schema := "", tags := [], metadata := [] } "t" "m1" 0,
    .inviteMember
      { topicID := "t", inviterID := "founder", inviteeEmail := "", inviteeID := "guest", role := .editor
        message := "", expiresIn := 0 } "i1" "secret" 1,
    .subscribe (some (sampleUser "heir")) "t" "" "m2" 2,
    .transferOwnership "t" "founder" "heir" 3,
    .removeMember "t" "heir" "founder",
    .acceptInvitation "secret" "guest" "m3" 4]

/-- The guest is an editor by the invitation, although its inviter is not a member any more. -/
theorem invited_editor_conferred :
    getRole "t" "founder" (run sampleCalls) = none ∧ Conferred sampleCalls "t" "guest" .editor :=
  ⟨by decide +kernel,
    no_privilege_escalation sampleCalls "t" "guest" .editor (by decide +kernel) (.inr rfl)⟩

end Bib.Topics
