import Bib.BreakGlass.Manager
import Bib.Lib.Table

/-!
# Bib.BreakGlass.Challenges

**Challenges of the emergency access** (`CreateChallenge` and `VerifyChallenge` in `breakglass/manager.go`). A
challenge is a pointer in a table: challenges are numbered as they are created, and the table has numbers.
Both calls hold the lock of the manager throughout.
-/

namespace Bib.BreakGlass

open Bib.Domain Bib.Lib Bib.Lib.KeyMap List

/-- A user with the key. -/
structure KeyedUser extends User where
  publicKey : Bytes

structure Challenge where
  nonce : Bytes
  expiresAt : Time
  username : String

/-- What the calls depend on; `verify` is `ed25519.Verify`. -/
structure AccessConfig where
  enabled : Bool
  allowedUsers : List KeyedUser
  verify : Bytes → Bytes → Bytes → Bool

/-- A `VerifyChallenge` that returned a user. -/
structure Success where
  challenge : Nat
  user : KeyedUser
  signature : Bytes
  now : Time

structure Challenges where
  challenges : KeyMap String Nat
  created : List Challenge
  successes : List Success

inductive ChallengeCall
  | create (username id : String) (nonce : Bytes)
  | verify (challengeID : String) (signature : Bytes)

def AccessConfig.findUser (cfg : AccessConfig) (username : String) : Option KeyedUser :=
  cfg.allowedUsers.find? fun user => user.name = username

def Challenge.isExpired (now : Time) (challenge : Challenge) : Bool := now > challenge.expiresAt

/-- `cleanupChallenges`. -/
def Challenges.cleanup (now : Time) (s : Challenges) : Challenges :=
  { s with challenges := s.challenges.filter fun p => !s.created[p.2]?.any (Challenge.isExpired now) }

def Challenges.step (cfg : AccessConfig) (s : Challenges) : Time × ChallengeCall → Challenges
  | (now, .create username id nonce) =>
    if cfg.enabled = false ∨ cfg.findUser username = none then s
    else
      let challenge : Challenge := { nonce, expiresAt := now + 5 * 60 * 1000000000, username }
      Challenges.cleanup now
        { s with challenges := s.challenges.set id s.created.length, created := s.created ++ [challenge] }
  | (now, .verify challengeID signature) =>
    match s.challenges.get? challengeID with
    | none => s
    | some number =>
      match s.created[number]? with
      | none => s
      | some challenge =>
        if challenge.isExpired now then { s with challenges := s.challenges.delete challengeID }
        else
          match cfg.findUser challenge.username with
          | none => s
          | some user =>
            if !cfg.verify user.publicKey challenge.nonce signature then s
            else
              { s with
                challenges := s.challenges.delete challengeID
                successes := { challenge := number, user, signature, now } :: s.successes }

/-- The user is the one of the challenge, not after its expiry and with a signature of its nonce. -/
def Success.Genuine (cfg : AccessConfig) (created : List Challenge) (x : Success) : Prop :=
  ∃ challenge, created[x.challenge]? = some challenge ∧ cfg.findUser challenge.username = some x.user ∧
    x.now ≤ challenge.expiresAt ∧ cfg.verify x.user.publicKey challenge.nonce x.signature = true

structure Challenges.Inv (cfg : AccessConfig) (s : Challenges) : Prop where
  genuine : ∀ x ∈ s.successes, x.Genuine cfg s.created
  once : (s.successes.map Success.challenge).Nodup
  /-- A challenge in the table has been created and was not used, and it is there only once. -/
  unused : ∀ id number, s.challenges.get? id = some number →
    number < s.created.length ∧ number ∉ s.successes.map Success.challenge
  inj : ∀ id id' number, s.challenges.get? id = some number → s.challenges.get? id' = some number → id = id'

variable {cfg : AccessConfig} {s : Challenges}

/-- Entries of the table can go. -/
theorem Challenges.Inv.shrink (h : s.Inv cfg) {challenges : KeyMap String Nat}
    (hsub : ∀ id number, challenges.get? id = some number → s.challenges.get? id = some number) :
    Inv cfg { s with challenges } :=
  ⟨h.genuine, h.once, fun id number hg => h.unused id number (hsub id number hg),
    fun id id' number hg hg' => h.inj id id' number (hsub id number hg) (hsub id' number hg')⟩

theorem Challenges.Inv.delete (h : s.Inv cfg) (id : String) :
    Inv cfg { s with challenges := s.challenges.delete id } :=
  h.shrink fun _ _ hg => (get?_delete_eq_some_iff.mp hg).2

theorem Challenges.Inv.create (h : s.Inv cfg) (id : String) (challenge : Challenge) :
    Inv cfg { s with challenges := s.challenges.set id s.created.length, created := s.created ++ [challenge] } := by
  have hlt : ∀ id', s.challenges.get? id' ≠ some s.created.length :=
    fun id' hg => Nat.lt_irrefl _ (h.unused id' _ hg).1
  refine ⟨fun x hx => ?_, h.once, fun id' number hg => ?_, fun id₁ id₂ number hg₁ hg₂ => ?_⟩
  · obtain ⟨c, hc, hrest⟩ := h.genuine x hx
    exact ⟨c, (getElem?_append_left (List.getElem?_eq_some_iff.mp hc).1).trans hc, hrest⟩
  · rw [length_append]
    rcases get?_set_eq_some_iff.mp hg with ⟨-, rfl⟩ | ⟨-, hg⟩
    · refine ⟨Nat.lt_succ_self _, fun hmem => ?_⟩
      obtain ⟨x, hx, heq⟩ := mem_map.mp hmem
      obtain ⟨c, hc, -⟩ := h.genuine x hx
      exact Nat.ne_of_lt (List.getElem?_eq_some_iff.mp hc).1 heq
    · exact ⟨Nat.lt_succ_of_lt (h.unused id' number hg).1, (h.unused id' number hg).2⟩
  · rcases get?_set_eq_some_iff.mp hg₁ with ⟨h₁, hn₁⟩ | ⟨-, hg₁⟩ <;>
      rcases get?_set_eq_some_iff.mp hg₂ with ⟨h₂, hn₂⟩ | ⟨-, hg₂⟩
    · exact h₁.trans h₂.symm
    · exact absurd (hn₁ ▸ hg₂) (hlt id₂)
    · exact absurd (hn₂ ▸ hg₁) (hlt id₁)
    · exact h.inj id₁ id₂ number hg₁ hg₂

theorem Challenges.inv_step (h : s.Inv cfg) (event : Time × ChallengeCall) : (s.step cfg event).Inv cfg := by
  obtain ⟨now, call⟩ := event
  cases call with
  | create username id nonce =>
    rw [step]
    split
    · exact h
    · refine (h.create id _).shrink fun id' number hg => ?_
      rw [get?_eq_some_iff] at hg ⊢
      exact mem_of_mem_filter hg
  | verify challengeID signature =>
    simp only [step]
    split
    · exact h
    next number hg =>
      split
      · exact h
      next challenge hc =>
        split
        · exact h.delete challengeID
        next hexpired =>
          split
          · exact h
          next user hu =>
            split
            · exact h
            next hverify =>
              have hd := h.delete challengeID
              refine { hd with genuine := ?_, once := ?_, unused := ?_ }
              · refine forall_mem_cons.mpr ⟨⟨challenge, hc, hu, ?_, ?_⟩, h.genuine⟩
                · simpa [Challenge.isExpired] using hexpired
                · simpa using hverify
              · exact nodup_cons.mpr ⟨(h.unused challengeID number hg).2, h.once⟩
              · intro id number' hg'
                obtain ⟨hlt, hn⟩ := hd.unused id number' hg'
                obtain ⟨hne, hg'⟩ := get?_delete_eq_some_iff.mp hg'
                refine ⟨hlt, not_mem_cons_of_ne_of_not_mem (fun heq => hne ?_) hn⟩
                exact h.inj id challengeID number' hg' (heq ▸ hg)

/-- **Challenges authenticate once**: every success is genuine, and no challenge has two. -/
theorem challenges_authenticate_once (cfg : AccessConfig) (calls : List (Time × ChallengeCall)) :
    let s := calls.foldl (Challenges.step cfg) ⟨.empty, [], []⟩
    (∀ x ∈ s.successes, x.Genuine cfg s.created) ∧ (s.successes.map Success.challenge).Nodup := by
  have h : (calls.foldl (Challenges.step cfg) ⟨.empty, [], []⟩).Inv cfg := by
    refine Run.invariant (Challenges.Inv cfg) (fun _ => True) (fun _ call _ h => Challenges.inv_step h call) ?_
      fun _ _ => trivial
    refine ⟨fun x hx => ?_, nodup_nil, fun id number hg => ?_, fun id id' number hg => ?_⟩
    · cases hx
    · cases hg
    · cases hg
  exact ⟨h.genuine, h.once⟩

def opsAccess : AccessConfig where
  enabled := true
  allowedUsers := [{ name := "ops", accessLevel := .readOnly, publicKey := [1] }]
  verify publicKey message signature := signature = publicKey ++ message

/-- The answer comes at the very time of the expiry, and once more. -/
def lateCalls : List (Time × ChallengeCall) :=
  [(0, .create "ops" "c1" [9]), (300000000000, .verify "c1" [1, 9]), (300000000000, .verify "c1" [1, 9])]

/-- The first answer succeeds although the challenge has no time left, the second does not. -/
theorem challenge_succeeds_at_expiry :
    let s := lateCalls.foldl (Challenges.step opsAccess) ⟨.empty, [], []⟩
    ∃ x challenge, s.successes = [x] ∧ s.created[x.challenge]? = some challenge ∧
      ¬ x.now < challenge.expiresAt :=
  ⟨_, _, rfl, rfl, by decide⟩

end Bib.BreakGlass
