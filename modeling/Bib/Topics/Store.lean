import Bib.Domain.User

/-!
# Bib.Topics.Store

**Topics, their members and invitations in the database** (the repositories of
`storage/sqlite`, with the constraints of the tables).

A member row is unique by its id and by topic and user. Updates go by the id and write few columns: the
role and the times of a member, the status and the response time of an invitation. The lemmas say
what each operation leaves of the rows.
-/

namespace Bib.Topics

open Bib.Domain Bib.Lib Table

/-! ### Rows -/

inductive TopicStatus
  | active
  | archived
  | deleted
  deriving DecidableEq

/-- `domain.Topic`, without the parent. -/
structure Topic where
  (id name description tableSchema : String)
  status : TopicStatus
  owners : List String
  createdBy : String
  (createdAt updatedAt : Time)
  datasetCount : Int
  tags : List String
  metadata : List (String × String)

/-- `TopicMemberRole`, a string in the source. -/
inductive TopicMemberRole
  | owner
  | editor
  | viewer
  | other (text : String)
  deriving DecidableEq

/-- `IsValid`, which is also what the tables check. -/
def TopicMemberRole.isValid : TopicMemberRole → Bool
  | owner | editor | viewer => true
  | other _ => false

structure TopicMember where
  (id topicID userID : String)
  role : TopicMemberRole
  invitedBy : String
  invitedAt : Time
  acceptedAt : Option Time
  (createdAt updatedAt : Time)

inductive InvitationStatus
  | pending
  | accepted
  | declined
  | expired
  | cancelled
  deriving DecidableEq

structure TopicInvitation where
  (id topicID inviterID inviteeEmail inviteeUserID : String)
  role : TopicMemberRole
  (token message : String)
  status : InvitationStatus
  (expiresAt createdAt : Time)
  respondedAt : Option Time

structure Store where
  topics : Table Topic.id
  members : Table TopicMember.id
  invitations : Table TopicInvitation.id

def Store.empty : Store := ⟨.empty, .empty, .empty⟩

inductive TopicError
  | invalidTopicID
  | invalidTopicName
  | noOwners
  | notFound
  | alreadyExists
  | notOwner
  | ownerNotFound
  | cannotRemoveLastOwner
  | invalidOperation
  | userExists
  | unauthorized
  | sessionExpired
  | unauthenticated
  /-- A constraint of a table. -/
  | constraint (text : String)
  /-- `NewValidationError`, with the fields at fault. -/
  | validation (message : String) (violations : List (String × String))
  | precondition (message : String) (violations : List (String × String))
  | permissionDenied (action resource requiredRole : String)

/-- A time as it reads back from the columns of members and invitations: whole seconds. -/
def storedTime (t : Time) : Time := t - t % 1000000000

/-! ### Topics -/

/-- `Topic.Validate`; a status is always one of the three here. -/
def Topic.validate (topic : Topic) : Except TopicError Unit :=
  if topic.id = "" then .error .invalidTopicID
  else if topic.name = "" then .error .invalidTopicName
  else if topic.owners.length = 0 then .error .noOwners
  else .ok ()

def getTopic (id : String) (store : Store) : Option Topic := store.topics.find? id

def getTopicByName (name : String) (store : Store) : Option Topic :=
  store.topics.rows.find? fun topic => topic.name = name

def createTopicRow (topic : Topic) (store : Store) : Except TopicError Store :=
  match topic.validate with
  | .error err => .error err
  | .ok () =>
    if store.topics.rows.any (fun row => row.id = topic.id || row.name = topic.name) then
      .error .alreadyExists
    else .ok { store with topics := store.topics.put topic }

def updateTopicRow (topic : Topic) (store : Store) : Except TopicError Store :=
  match topic.validate with
  | .error err => .error err
  | .ok () =>
    if (store.topics.find? topic.id).isNone then .error .notFound
    else if store.topics.rows.any (fun row => row.id ≠ topic.id && row.name = topic.name) then
      .error (.constraint "UNIQUE constraint failed: topics.name")
    else .ok { store with topics := store.topics.put topic }

/-- `TopicRepository.Delete`, a soft delete. -/
def deleteTopicRow (id : String) (now : Time) (store : Store) : Except TopicError Store :=
  match store.topics.find? id with
  | none => .error .notFound
  | some topic =>
    .ok { store with topics := store.topics.put { topic with status := .deleted, updatedAt := now } }

/-! ### Members -/

def getMember (topicID userID : String) (store : Store) : Option TopicMember :=
  store.members.rows.find? fun row => row.topicID = topicID && row.userID = userID

/-- `TopicMemberRepository.GetRole`; `none` is its error. -/
def getRole (topicID userID : String) (store : Store) : Option TopicMemberRole :=
  (getMember topicID userID store).map TopicMember.role

def isOwner (topicID userID : String) (store : Store) : Bool :=
  getRole topicID userID store = some .owner

def hasAccess (topicID userID : String) (store : Store) : Bool :=
  (getMember topicID userID store).isSome

def countOwners (topicID : String) (store : Store) : Nat :=
  store.members.rows.countP fun row => row.topicID = topicID && row.role = .owner

def listByTopic (topicID : String) (store : Store) : List TopicMember :=
  store.members.rows.filter fun row => row.topicID = topicID

def createMember (member : TopicMember) (store : Store) : Except TopicError Store :=
  if !member.role.isValid then .error (.constraint "CHECK constraint failed: role")
  else if (store.members.find? member.id).isSome then
    .error (.constraint "UNIQUE constraint failed: topic_members.id")
  else if hasAccess member.topicID member.userID store then
    .error (.constraint "UNIQUE constraint failed: topic_members.topic_id, topic_members.user_id")
  else if (store.topics.find? member.topicID).isNone then
    .error (.constraint "FOREIGN KEY constraint failed")
  else
    let row :=
      { member with
        invitedAt := storedTime member.invitedAt, acceptedAt := member.acceptedAt.map storedTime
        createdAt := storedTime member.createdAt, updatedAt := storedTime member.updatedAt }
    .ok { store with members := store.members.put row }

/-- `TopicMemberRepository.Update`, by the id. -/
def updateMember (now : Time) (member : TopicMember) (store : Store) : Except TopicError Store :=
  if !member.role.isValid then .error (.constraint "CHECK constraint failed: role")
  else
    match store.members.find? member.id with
    | none => .ok store
    | some row =>
      .ok
        { store with
          members := store.members.put
            { row with
              role := member.role, acceptedAt := member.acceptedAt.map storedTime
              updatedAt := storedTime now } }

def deleteMember (topicID userID : String) (store : Store) : Store :=
  { store with
    members := store.members.filter fun row => !(row.topicID = topicID && row.userID = userID) }

/-! ### Invitations -/

def getInvitation (id : String) (store : Store) : Option TopicInvitation := store.invitations.find? id

def getInvitationByToken (token : String) (store : Store) : Option TopicInvitation :=
  store.invitations.rows.find? fun row => row.token = token

def createInvitation (invitation : TopicInvitation) (store : Store) : Except TopicError Store :=
  if !invitation.role.isValid then .error (.constraint "CHECK constraint failed: role")
  else if (store.invitations.find? invitation.id).isSome then
    .error (.constraint "UNIQUE constraint failed: topic_invitations.id")
  else if (getInvitationByToken invitation.token store).isSome then
    .error (.constraint "UNIQUE constraint failed: topic_invitations.token")
  else if (store.topics.find? invitation.topicID).isNone then
    .error (.constraint "FOREIGN KEY constraint failed")
  else
    let row :=
      { invitation with
        expiresAt := storedTime invitation.expiresAt, createdAt := storedTime invitation.createdAt
        respondedAt := invitation.respondedAt.map storedTime }
    .ok { store with invitations := store.invitations.put row }

/-- `TopicInvitationRepository.Update`, by the id. -/
def updateInvitation (invitation : TopicInvitation) (store : Store) : Store :=
  match store.invitations.find? invitation.id with
  | none => store
  | some row =>
    { store with
      invitations := store.invitations.put
        { row with
          status := invitation.status, respondedAt := invitation.respondedAt.map storedTime } }

/-! ### What the operations leave -/

section

variable {store store' : Store} {topicID userID : String} {member : TopicMember}
  {invitation : TopicInvitation} {topic : Topic} {now : Time}

theorem mem_of_getMember (h : getMember topicID userID store = some member) :
    member ∈ store.members.rows ∧ member.topicID = topicID ∧ member.userID = userID := by
  have hf := List.find?_some h
  simp only [Bool.and_eq_true, decide_eq_true_eq] at hf
  exact ⟨List.mem_of_find?_eq_some h, hf⟩

theorem mem_of_getInvitationByToken {token : String}
    (h : getInvitationByToken token store = some invitation) :
    invitation ∈ store.invitations.rows ∧ invitation.token = token := by
  have hf := List.find?_some h
  simp only [decide_eq_true_eq] at hf
  exact ⟨List.mem_of_find?_eq_some h, hf⟩

/-- Two rows that say the same about who has which role where. -/
def SameRole (member row : TopicMember) : Prop :=
  member.topicID = row.topicID ∧ member.userID = row.userID ∧ member.role = row.role

/-- Two rows of the same invitation, which may have been answered in between. -/
def SameOffer (invitation row : TopicInvitation) : Prop :=
  invitation.topicID = row.topicID ∧ invitation.inviterID = row.inviterID ∧
    invitation.role = row.role ∧ invitation.token = row.token

theorem ite_error_eq_ok {p : Prop} [Decidable p] {err : TopicError} {result : Except TopicError Store} :
    (if p then .error err else result) = .ok store' ↔ ¬p ∧ result = .ok store' := by
  split <;> simp [*]

theorem createTopicRow_eq_ok (h : createTopicRow topic store = .ok store') :
    store' = { store with topics := store.topics.put topic } := by
  unfold createTopicRow at h
  split at h
  · cases h
  · simp only [ite_error_eq_ok, Except.ok.injEq] at h
    exact h.2.symm

theorem updateTopicRow_eq_ok (h : updateTopicRow topic store = .ok store') :
    store' = { store with topics := store.topics.put topic } := by
  unfold updateTopicRow at h
  split at h
  · cases h
  · simp only [ite_error_eq_ok, Except.ok.injEq] at h
    exact h.2.2.symm

theorem deleteTopicRow_eq_ok {id : String} (h : deleteTopicRow id now store = .ok store') :
    store' = { store with topics := store'.topics } := by
  unfold deleteTopicRow at h
  split at h <;> cases h
  rfl

theorem createMember_eq_ok (h : createMember member store = .ok store') :
    ∃ row, store' = { store with members := store.members.put row } ∧ SameRole row member := by
  simp only [createMember, ite_error_eq_ok, Except.ok.injEq] at h
  obtain ⟨-, -, -, -, rfl⟩ := h
  exact ⟨_, rfl, rfl, rfl, rfl⟩

/-- `Update` with a member that was read from the table changes the role of that member only. -/
theorem updateMember_eq_ok {row₀ : TopicMember}
    (h : updateMember now member store = .ok store') (hmem : row₀ ∈ store.members.rows)
    (hid : member.id = row₀.id) : ∃ row, store' = { store with members := store.members.put row } ∧
      SameRole row { row₀ with role := member.role } := by
  have hf : store.members.find? member.id = some row₀ := by
    rw [hid]
    exact mem_rows_iff.mp hmem
  simp only [updateMember, hf, ite_error_eq_ok, Except.ok.injEq] at h
  obtain ⟨-, rfl⟩ := h
  exact ⟨_, rfl, rfl, rfl, rfl⟩

theorem createInvitation_eq_ok (h : createInvitation invitation store = .ok store') : ∃ row,
    store' = { store with invitations := store.invitations.put row } ∧ SameOffer row invitation := by
  simp only [createInvitation, ite_error_eq_ok, Except.ok.injEq] at h
  obtain ⟨-, -, -, -, rfl⟩ := h
  exact ⟨_, rfl, rfl, rfl, rfl, rfl⟩

@[simp] theorem members_updateInvitation (invitation : TopicInvitation) (store : Store) :
    (updateInvitation invitation store).members = store.members := by
  unfold updateInvitation
  split <;> rfl

theorem mem_updateInvitation {row : TopicInvitation}
    (h : row ∈ (updateInvitation invitation store).invitations.rows) :
    ∃ old ∈ store.invitations.rows, SameOffer row old := by
  unfold updateInvitation at h
  split at h
  next => exact ⟨row, h, rfl, rfl, rfl, rfl⟩
  next old hold =>
    rcases mem_put.mp h with rfl | ⟨hrow, -⟩
    · exact ⟨old, mem_of_find? hold, rfl, rfl, rfl, rfl⟩
    · exact ⟨row, hrow, rfl, rfl, rfl, rfl⟩

end

end Bib.Topics
