import Bib.Cluster.Storage

/-!
# Bib.Cluster.JoinTokens

**Join tokens over whole histories** (`StoreJoinToken`, `ValidateJoinToken` and `CleanupExpiredTokens` of
`internal/cluster/storage.go`). Every call holds the mutex of the storage. A token that has been accepted is
`Spent`: its row is marked, or gone, and only a `StoreJoinToken` brings it back (`join_token_single_use`).
-/

namespace Bib.Cluster

open Bib.Lib Bib.Domain Table

/-! ### Calls -/

/-- `CleanupExpiredTokens`. The statement compares the texts that the driver makes of two times;
`before` is what comes of it. -/
def cleanupExpiredTokens (before : Time → Time → Bool) (io : Io) (now : Time) (s : Storage) :
    Except StorageError Storage :=
  io.run { s with
    joinTokens := s.joinTokens.filter fun row => !before row.toJoinToken.expiresAt now }

inductive TokenCall
  | storeJoinToken (io : Io) (token : JoinToken)
  | validateJoinToken (read write : Io) (token : String)
  | cleanupExpiredTokens (io : Io)

structure TokenEvent where
  now : Time
  call : TokenCall

def TokenCall.perform (before : Time → Time → Bool) (now : Time) (s : Storage) :
    TokenCall → Except StorageError (Option JoinToken) × Storage
  | storeJoinToken io token =>
    match Cluster.storeJoinToken io token s with
    | .error err => (.error err, s)
    | .ok s' => (.ok none, s')
  | validateJoinToken (.fails message) _ _ => (.error (.io message), s)
  | validateJoinToken .ok write token =>
    match Cluster.validateJoinToken write now token s with
    | .error err => (.error err, s)
    | .ok (accepted, s') => (.ok (some accepted), s')
  | cleanupExpiredTokens io =>
    match Cluster.cleanupExpiredTokens before io now s with
    | .error err => (.error err, s)
    | .ok s' => (.ok none, s')

open TokenCall (perform)

def tokenStep (before : Time → Time → Bool) (s : Storage) (event : TokenEvent) : Storage :=
  (event.call.perform before event.now s).2

/-- The token that a call stores, with success, if its string is the given one. -/
def TokenEvent.stores (before : Time → Time → Bool) (token : String) (s : Storage)
    (event : TokenEvent) : Option JoinToken :=
  match event.call, (event.call.perform before event.now s).1 with
  | .storeJoinToken _ stored, .ok _ => if stored.token = token then some stored else none
  | _, _ => none

/-- The call validates a token string, with success. -/
def Validates (before : Time → Time → Bool) (token : String) (s : Storage) (event : TokenEvent) : Prop :=
  (∃ read write, event.call = .validateJoinToken read write token) ∧
    ∃ result, (event.call.perform before event.now s).1 = .ok result

/-! ### What a call does to a row -/

inductive RowChange (before : Time → Time → Bool) (token : String) (s : Storage)
    (event : TokenEvent) (row' : Option JoinTokenRow) : Prop
  | keep (hstores : event.stores before token s = none) (h : row' = s.joinTokens.find? token)
  | store (stored : JoinToken) (hstores : event.stores before token s = some stored)
      (h : row' = some { toJoinToken := stored, used := false })
  | use (row : JoinTokenRow) (hstores : event.stores before token s = none)
      (hrow : s.joinTokens.find? token = some row) (h : row' = some { row with used := true })
  | clean (hstores : event.stores before token s = none) (h : row' = none)

variable {before : Time → Time → Bool} {token : String} {s s' : Storage} {event : TokenEvent}
  {now : Time} {events : List TokenEvent}

theorem storeJoinToken_eq_ok {io : Io} {stored : JoinToken}
    (h : storeJoinToken io stored s = .ok s') :
    s' = { s with joinTokens := s.joinTokens.put { toJoinToken := stored, used := false } } := by
  unfold storeJoinToken at h
  split at h
  · cases h
  · cases io with
    | ok => exact (Except.ok.inj h).symm
    | fails message => cases h

theorem validateJoinToken_eq_ok {write : Io} {accepted : JoinToken}
    (h : validateJoinToken write now token s = .ok (accepted, s')) :
    ∃ row, s.joinTokens.find? token = some row ∧ row.used = false ∧
      now ≤ row.toJoinToken.expiresAt ∧
      s' = { s with joinTokens := s.joinTokens.put { row with used := true } } := by
  unfold validateJoinToken at h
  split at h
  · cases h
  next row hrow =>
    split at h
    · cases h
    next hu =>
      split at h
      · cases h
      next he =>
        cases write with
        | fails message => cases h
        | ok =>
          cases h
          exact ⟨row, hrow, Bool.eq_false_iff.mpr hu, Int.not_lt.mp he, rfl⟩

theorem cleanupExpiredTokens_eq_ok {io : Io} (h : cleanupExpiredTokens before io now s = .ok s') :
    s' = { s with
      joinTokens := s.joinTokens.filter fun row => !before row.toJoinToken.expiresAt now } := by
  cases io with
  | ok => exact (Except.ok.inj h).symm
  | fails message => cases h

theorem rowChange (before : Time → Time → Bool) (token : String) (s : Storage) (event : TokenEvent) :
    RowChange before token s event ((tokenStep before s event).joinTokens.find? token) := by
  obtain ⟨now, call⟩ := event
  cases call with
  | storeJoinToken io stored =>
    cases hs : storeJoinToken io stored s with
    | error err =>
      refine .keep ?_ ?_
      · simp [TokenEvent.stores, perform, hs]
      · simp [tokenStep, perform, hs]
    | ok s' =>
      have hstores : TokenEvent.stores before token s ⟨now, .storeJoinToken io stored⟩ =
          if stored.token = token then some stored else none := by
        simp [TokenEvent.stores, perform, hs]
      simp only [tokenStep, perform, hs]
      rw [storeJoinToken_eq_ok hs, find?_put]
      by_cases ht : token = stored.token
      · rw [if_pos ht.symm] at hstores
        rw [if_pos ht]
        exact .store stored hstores rfl
      · rw [if_neg (Ne.symm ht)] at hstores
        rw [if_neg ht]
        exact .keep hstores rfl
  | validateJoinToken read write used =>
    cases read with
    | fails message => exact .keep rfl rfl
    | ok =>
      cases hv : validateJoinToken write now used s with
      | error err =>
        refine .keep rfl ?_
        simp [tokenStep, perform, hv]
      | ok result =>
        obtain ⟨accepted, s'⟩ := result
        obtain ⟨row, hrow, -, -, hs'⟩ := validateJoinToken_eq_ok hv
        have hk := key_of_find? hrow
        simp only [tokenStep, perform, hv]
        rw [hs', find?_put]
        by_cases ht : token = row.toJoinToken.token
        · rw [if_pos ht]
          refine .use row rfl ?_ rfl
          rw [ht, hk]
          exact hrow
        · rw [if_neg ht]
          exact .keep rfl rfl
  | cleanupExpiredTokens io =>
    cases hc : cleanupExpiredTokens before io now s with
    | error err =>
      refine .keep rfl ?_
      simp [tokenStep, perform, hc]
    | ok s' =>
      simp only [tokenStep, perform, hc]
      rw [cleanupExpiredTokens_eq_ok hc, find?_filter]
      cases hrow : s.joinTokens.find? token with
      | none => exact .keep rfl hrow.symm
      | some row =>
        rw [Option.filter_some]
        split
        · exact .keep rfl hrow.symm
        · exact .clean rfl rfl

theorem find?_of_validates (h : Validates before token s event) :
    ∃ row, s.joinTokens.find? token = some row ∧ row.used = false ∧
      event.now ≤ row.toJoinToken.expiresAt ∧
      (tokenStep before s event).joinTokens.find? token = some { row with used := true } := by
  obtain ⟨⟨read, write, hcall⟩, result, hr⟩ := h
  obtain ⟨now, call⟩ := event
  cases hcall
  cases read with
  | fails message => cases hr
  | ok =>
    cases hv : validateJoinToken write now token s with
    | error err =>
      simp only [perform, hv] at hr
      cases hr
    | ok result =>
      obtain ⟨accepted, s'⟩ := result
      obtain ⟨row, hrow, hu, he, hs'⟩ := validateJoinToken_eq_ok hv
      have hk := key_of_find? hrow
      refine ⟨row, hrow, hu, he, ?_⟩
      simp only [tokenStep, perform, hv, hs']
      rw [find?_put, if_pos hk.symm]

/-! ### Single use -/

/-- The row of the token is marked as used, or there is none. -/
def Spent (token : String) (s : Storage) : Prop :=
  ∀ row, s.joinTokens.find? token = some row → row.used = true

theorem spent_of_validates (h : Validates before token s event) : Spent token (tokenStep before s event) := by
  intro row hrow
  obtain ⟨old, -, -, -, ha⟩ := find?_of_validates h
  rw [ha] at hrow
  cases hrow
  rfl

theorem Spent.not_validates (h : Spent token s) : ¬Validates before token s event := by
  intro hv
  obtain ⟨row, hrow, hu, -, -⟩ := find?_of_validates hv
  rw [h row hrow] at hu
  cases hu

/-- A spent token stays spent, unless it is stored. -/
theorem Spent.step (h : Spent token s) (event : TokenEvent) :
    (∃ stored, event.stores before token s = some stored) ∨
      Spent token (tokenStep before s event) := by
  cases rowChange before token s event with
  | keep hstores hrow =>
    right
    intro row hf
    exact h row (hrow ▸ hf)
  | store stored hstores hrow => exact .inl ⟨stored, hstores⟩
  | use row hstores hf hrow =>
    right
    intro row' hf'
    rw [hrow] at hf'
    cases hf'
    rfl
  | clean hstores hrow =>
    right
    intro row hf
    rw [hrow] at hf
    cases hf

/-- A token that is spent before some calls and validated after them has been stored by one of
them. -/
theorem Spent.stored_between (h : Spent token s)
    (hv : Validates before token (events.foldl (tokenStep before) s) event) :
    ∃ done call rest stored, events = done ++ call :: rest ∧
      call.stores before token (done.foldl (tokenStep before) s) = some stored := by
  induction events generalizing s with
  | nil => exact absurd hv h.not_validates
  | cons call events ih =>
    rcases h.step call with ⟨stored, hstored⟩ | hs
    · exact ⟨[], call, events, stored, rfl, hstored⟩
    · obtain ⟨done, call', rest, stored, he, hstored⟩ := ih hs hv
      exact ⟨call :: done, call', rest, stored, by rw [he]; rfl, hstored⟩

/-! ### Expiry -/

/-- What was stored last for a token string after some calls: by one of them, or before. -/
def lastStored (before : Time → Time → Bool) (token : String) :
    Storage → Option JoinToken → List TokenEvent → Option JoinToken
  | _, known, [] => known
  | s, known, event :: events =>
    lastStored before token (tokenStep before s event)
      ((event.stores before token s).or known) events

/-- The row of a token, if there is one, is what was stored last. -/
theorem find?_eq_lastStored {known : Option JoinToken}
    (h : ∀ row, s.joinTokens.find? token = some row → known = some row.toJoinToken)
    {row : JoinTokenRow}
    (hrow : (events.foldl (tokenStep before) s).joinTokens.find? token = some row) :
    lastStored before token s known events = some row.toJoinToken := by
  induction events generalizing s known with
  | nil => exact h row hrow
  | cons event events ih =>
    refine ih ?_ hrow
    intro row' hrow'
    cases rowChange before token s event with
    | keep hstores hk =>
      rw [hstores]
      exact h row' (hk ▸ hrow')
    | store stored hstores hstored =>
      rw [hstored] at hrow'
      cases hrow'
      rw [hstores, Option.some_or]
    | use old hstores hold hu =>
      rw [hu] at hrow'
      cases hrow'
      rw [hstores]
      exact h old hold
    | clean hstores hg =>
      rw [hg] at hrow'
      cases hrow'

/-- **A join token is used once for each time it is stored, and not after it has expired.** Between two
validations that succeed for one token string, a `StoreJoinToken` of it succeeds; and a
validation succeeds only up to the expiry of what was stored last. -/
theorem join_token_single_use (before : Time → Time → Bool) (token : String) (s : Storage)
    (events : List TokenEvent) :
    (∀ done first between second rest, events = done ++ first :: between ++ second :: rest →
      Validates before token (done.foldl (tokenStep before) s) first →
      Validates before token ((done ++ first :: between).foldl (tokenStep before) s) second →
      ∃ between' call rest' stored, between = between' ++ call :: rest' ∧
        call.stores before token ((done ++ first :: between').foldl (tokenStep before) s) =
          some stored) ∧ ∀ done event rest, events = done ++ event :: rest →
      Validates before token (done.foldl (tokenStep before) s) event →
      ∃ stored, lastStored before token s
          ((s.joinTokens.find? token).map JoinTokenRow.toJoinToken) done = some stored ∧
        event.now ≤ stored.expiresAt := by
  refine ⟨?_, ?_⟩
  · intro done first between second rest _ hf hs
    rw [List.foldl_append] at hs
    obtain ⟨between', call, rest', stored, hb, hstores⟩ := (spent_of_validates hf).stored_between hs
    refine ⟨between', call, rest', stored, hb, ?_⟩
    rw [List.foldl_append]
    exact hstores
  · intro done event rest _ hv
    obtain ⟨row, hrow, -, he, -⟩ := find?_of_validates hv
    refine ⟨row.toJoinToken, find?_eq_lastStored ?_ hrow, he⟩
    intro row' hrow'
    rw [hrow', Option.map_some]

end Bib.Cluster
