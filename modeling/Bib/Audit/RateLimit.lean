import Bib.Audit.Repository
import Bib.Lib.Run
import Bib.Lib.Window
import Mathlib.Order.Bounds.Basic

/-!
# Bib.Audit.RateLimit

**The rate limiter of the audit log** (`audit/ratelimit.go`). For every key it keeps the times of the last
allowed operations, and it blocks a key whose limit is reached.

`Check` makes a `checkKey` for each key of an entry, each under the lock (`check_run`). When a block has ended,
`checkKey` forgets the times of the key, even those in the window, and a `TriggerBlock` for an unknown key gives
it the default limit. `rate_limit_holds` is for runs without these two.
-/

namespace Bib.Audit

open Bib.Domain Bib.Lib List
open Table (empty find?_put)

/-! ### The limiter -/

structure RateLimitConfig where
  enabled : Bool
  (defaultLimit defaultWindow blockDuration : Int)
  bypassRoles : List String
  (limitsByAction limitsByTable : KeyMap String Int)

structure LimiterState where
  key : String
  counts : List Time
  (blockedAt blockUntil : Option Time)
  (limit window : Int)
  blocked : Bool

abbrev Limiters := Table LimiterState.key

inductive Verdict
  | allowed
  | blockedUntil (blockEnd : Time)
  | exceeded (key : String)
  deriving DecidableEq

/-- The reason that is returned; `format` is `Format(time.RFC3339)`. -/
def Verdict.reason (format : Time → String) : Verdict → String
  | allowed => ""
  | blockedUntil blockEnd => "rate limit exceeded, blocked until " ++ format blockEnd
  | exceeded key => "rate limit exceeded for " ++ key

def generateKeys (entry : AuditEntry) : List String :=
  ["global"] ++ (if entry.actor ≠ "" then ["actor:" ++ entry.actor] else []) ++
    ["action:" ++ entry.action] ++
    (if entry.tableName ≠ "" then ["table:" ++ entry.tableName] else [])

/-- `determineLimit`; the key plays no part. -/
def determineLimit (cfg : RateLimitConfig) (entry : AuditEntry) : Int :=
  match cfg.limitsByAction.get? entry.action with
  | some limit => limit
  | none =>
    match cfg.limitsByTable.get? entry.tableName with
    | some limit => limit
    | none => cfg.defaultLimit

def newState (cfg : RateLimitConfig) (key : String) (limit : Int) : LimiterState :=
  { key, counts := [], blockedAt := none, blockUntil := none, limit, window := cfg.defaultWindow
    blocked := false }

def LimiterState.expired (now : Time) (state : LimiterState) : Bool :=
  state.blocked && state.blockUntil.any fun blockEnd => blockEnd < now

/-- The state without a block that has ended, and without the times before. -/
def LimiterState.unblockExpired (now : Time) (state : LimiterState) : LimiterState :=
  if state.expired now then
    { state with blocked := false, blockUntil := none, blockedAt := none, counts := [] }
  else state

/-- `checkKey` from the check of the window on. -/
def LimiterState.count (cfg : RateLimitConfig) (now : Time) (state : LimiterState) : Verdict × LimiterState :=
  let counts := state.counts.filter fun t => now - state.window < t
  if state.limit ≤ counts.length then
    (.exceeded state.key,
      { state with
        counts, blocked := true, blockedAt := some now
        blockUntil := some (now + cfg.blockDuration) })
  else (.allowed, { state with counts := counts ++ [now] })

/-- `checkKey` on the state of the key. -/
def LimiterState.check (cfg : RateLimitConfig) (now : Time) (state : LimiterState) : Verdict × LimiterState :=
  match state.blockUntil with
  | some blockEnd =>
    if state.blocked && now < blockEnd then (.blockedUntil blockEnd, state)
    else (state.unblockExpired now).count cfg now
  | none => (state.unblockExpired now).count cfg now

def checkKey (cfg : RateLimitConfig) (now : Time) (key : String) (entry : AuditEntry)
    (limiters : Limiters) : Verdict × Limiters :=
  let state := (limiters.find? key).getD (newState cfg key (determineLimit cfg entry))
  ((state.check cfg now).1, limiters.put (state.check cfg now).2)

/-- The loop of `Check`, over the keys and the times at which they are checked. -/
def checkKeys (cfg : RateLimitConfig) (entry : AuditEntry) : List (String × Time) → Limiters → Verdict × Limiters
  | [], limiters => (.allowed, limiters)
  | (key, now) :: rest, limiters =>
    let checked := checkKey cfg now key entry limiters
    if checked.1 = .allowed then checkKeys cfg entry rest checked.2 else checked

/-- `Check`; `clock` is the time at which a key is checked. -/
def check (cfg : RateLimitConfig) (clock : String → Time) (entry : AuditEntry)
    (limiters : Limiters) : Verdict × Limiters :=
  if !cfg.enabled then (.allowed, limiters)
  else if cfg.bypassRoles.contains entry.roleUsed then (.allowed, limiters)
  else checkKeys cfg entry ((generateKeys entry).map fun key => (key, clock key)) limiters

def triggerBlock (cfg : RateLimitConfig) (now : Time) (key : String) (duration : Int)
    (limiters : Limiters) : Limiters :=
  let state := (limiters.find? key).getD (newState cfg key cfg.defaultLimit)
  limiters.put
    { state with blocked := true, blockedAt := some now, blockUntil := some (now + duration) }

def unblock (key : String) (limiters : Limiters) : Limiters :=
  match limiters.find? key with
  | none => limiters
  | some state => limiters.put { state with blocked := false, blockedAt := none, blockUntil := none }

def LimiterState.stale (now : Time) (state : LimiterState) : Bool :=
  (state.counts.isEmpty && !state.blocked) ||
    (state.expired now && state.counts.all fun t => !(now - state.window < t))

def cleanup (now : Time) (limiters : Limiters) : Limiters :=
  limiters.filter fun state => !state.stale now

/-! ### Runs -/

/-- A step under the lock, with the time of it. -/
inductive RateEvent
  | checkKey (now : Time) (key : String) (entry : AuditEntry)
  | triggerBlock (now : Time) (key : String) (duration : Int)
  | unblock (now : Time) (key : String)
  | cleanup (now : Time)

def RateEvent.now : RateEvent → Time
  | checkKey now _ _ | triggerBlock now _ _ | unblock now _ | cleanup now => now

def rateStep (cfg : RateLimitConfig) (limiters : Limiters) : RateEvent → Limiters
  | .checkKey now key entry => (checkKey cfg now key entry limiters).2
  | .triggerBlock now key duration => triggerBlock cfg now key duration limiters
  | .unblock _ key => unblock key limiters
  | .cleanup now => cleanup now limiters

/-- The step is a `checkKey` of the key that returns allowed. -/
def RateEvent.allows (cfg : RateLimitConfig) (key : String) (limiters : Limiters) : RateEvent → Bool
  | checkKey now key' entry => key' = key && (Audit.checkKey cfg now key' entry limiters).1 = .allowed
  | triggerBlock _ _ _ | unblock _ _ | cleanup _ => false

def allowedTimes (cfg : RateLimitConfig) (key : String) : Limiters → List RateEvent → List Time
  | _, [] => []
  | limiters, event :: events =>
    (if event.allows cfg key limiters then [event.now] else []) ++
      allowedTimes cfg key (rateStep cfg limiters event) events

/-- `Check` calls `checkKey` for the keys of its entry only. -/
def RateEvent.generated : RateEvent → Bool
  | checkKey _ key entry => key ∈ generateKeys entry
  | triggerBlock _ _ _ | unblock _ _ | cleanup _ => true

theorem checkKeys_run (cfg : RateLimitConfig) (clock : String → Time) (entry : AuditEntry)
    (keys : List String) (limiters : Limiters) : ∃ events : List RateEvent,
      (checkKeys cfg entry (keys.map fun key => (key, clock key)) limiters).2 =
        events.foldl (rateStep cfg) limiters ∧
      ∀ event ∈ events, ∃ key ∈ keys, event = .checkKey (clock key) key entry := by
  induction keys generalizing limiters with
  | nil => exact ⟨[], rfl, by simp⟩
  | cons key keys ih =>
    simp only [map_cons, checkKeys]
    split
    · obtain ⟨events, hr, hev⟩ := ih (checkKey cfg (clock key) key entry limiters).2
      refine ⟨.checkKey (clock key) key entry :: events, hr, ?_⟩
      intro event he
      rcases mem_cons.mp he with hf | hrest
      · exact ⟨key, mem_cons_self, hf⟩
      · obtain ⟨key', hk', heq⟩ := hev event hrest
        exact ⟨key', mem_cons_of_mem _ hk', heq⟩
    · refine ⟨[.checkKey (clock key) key entry], rfl, ?_⟩
      intro event he
      exact ⟨key, mem_cons_self, mem_singleton.mp he⟩

/-- What `Check` does is a list of steps, for keys of its entry. -/
theorem check_run (cfg : RateLimitConfig) (clock : String → Time) (entry : AuditEntry)
    (limiters : Limiters) : ∃ events : List RateEvent, (check cfg clock entry limiters).2 =
        events.foldl (rateStep cfg) limiters ∧
      ∀ event ∈ events, ∃ key ∈ generateKeys entry, event = .checkKey (clock key) key entry := by
  unfold check
  split
  · exact ⟨[], rfl, by simp⟩
  · split
    · exact ⟨[], rfl, by simp⟩
    · exact checkKeys_run cfg clock entry (generateKeys entry) limiters

/-! ### The bound -/

/-- The limits that the configuration assigns to a key: one for each entry that has the key. -/
def assignedLimits (cfg : RateLimitConfig) (key : String) : Set Int :=
  { limit | ∃ entry, key ∈ generateKeys entry ∧ determineLimit cfg entry = limit }

/-- The condition on a step: a check that finds an ended block finds no time that is still in
the window, and a block for an unknown key does not come with a limit beyond the largest one. -/
def rateStepOk (cfg : RateLimitConfig) (key : String) (largest : Int) (limiters : Limiters) : RateEvent → Bool
  | .checkKey now key' _ =>
    key' ≠ key || (limiters.find? key).all fun state =>
      !state.expired now || state.counts.all fun t => !(now - state.window < t)
  | .triggerBlock _ key' _ => key' ≠ key || (limiters.find? key).isSome || cfg.defaultLimit ≤ largest
  | .unblock _ _ | .cleanup _ => true

/-- What holds along a run, of the times at which a key was allowed so far and of its state. -/
structure Tracks (cfg : RateLimitConfig) (largest : Int) (state? : Option LimiterState)
    (times : List Time) (last : Time) : Prop where
  bounded : Window.Bounded cfg.defaultWindow largest times
  recorded : Window.Recorded (last - cfg.defaultWindow) times
    ((state?.map LimiterState.counts).getD [])
  state : ∀ state, state? = some state → state.window = cfg.defaultWindow ∧ state.limit ≤ largest

section Tracks

variable {cfg : RateLimitConfig} {largest : Int} {state? : Option LimiterState}
variable {state : LimiterState} {times : List Time} {last now : Time}

theorem Tracks.later (h : Tracks cfg largest state? times last) (hn : last ≤ now) :
    Tracks cfg largest state? times now :=
  { h with recorded := fun x hx => h.recorded x (Int.le_trans (Int.sub_le_sub_right hn _) hx) }

theorem Tracks.reblock (h : Tracks cfg largest (some state) times now) {state' : LimiterState}
    (hc : state'.counts = state.counts) (hw : state'.window = state.window)
    (hl : state'.limit = state.limit) : Tracks cfg largest (some state') times now where
  bounded := h.bounded
  recorded := by
    show Window.Recorded _ _ state'.counts
    rw [hc]
    exact h.recorded
  state _ hsome := by
    cases hsome
    rw [hw, hl]
    exact h.state state rfl

theorem Tracks.create (h : Tracks cfg largest none times now) {limit : Int}
    (hl : limit ≤ largest) (key : String) :
    Tracks cfg largest (some (newState cfg key limit)) times now where
  bounded := h.bounded
  recorded := h.recorded
  state _ hsome := by
    cases hsome
    exact ⟨rfl, hl⟩

/-- Times that are not in the window any more can be forgotten, and the state with them. -/
theorem Tracks.forget (h : Tracks cfg largest (some state) times now)
    (hold : state.counts.all (fun t => !(now - state.window < t)) = true) :
    Tracks cfg largest none times now ∧
      Tracks cfg largest (some { state with counts := [] }) times now := by
  obtain ⟨hw, hl⟩ := h.state state rfl
  have hr : Window.Recorded (now - cfg.defaultWindow) times [] := by
    refine Window.Recorded.forget h.recorded fun t ht => ?_
    rw [← hw]
    simpa using all_eq_true.mp hold t ht
  refine ⟨⟨h.bounded, hr, fun _ hsome => by cases hsome⟩, h.bounded, hr, ?_⟩
  intro _ hsome
  cases hsome
  exact ⟨hw, hl⟩

theorem Tracks.count (h : Tracks cfg largest (some state) times now) :
    Tracks cfg largest (some (state.count cfg now).2)
      (times ++ if (state.count cfg now).1 = .allowed then [now] else []) now := by
  obtain ⟨hw, hli⟩ := h.state state rfl
  have hr : Window.Recorded (now - cfg.defaultWindow) times state.counts := h.recorded
  have hl := hr _ le_rfl
  rw [countP_eq_length_filter (l := state.counts)] at hl
  unfold LimiterState.count
  rw [hw]
  dsimp only
  split
  · rw [if_neg (by simp), append_nil]
    exact ⟨h.bounded, hr.prune, fun _ hsome => by cases hsome; exact ⟨rfl, hli⟩⟩
  next hroom =>
    refine ⟨h.bounded.append ?_, hr.prune.append now, fun _ hsome => by
      cases hsome
      exact ⟨rfl, hli⟩⟩
    rw [countP_append, hl, countP_singleton]
    split <;> omega

theorem Tracks.check (h : Tracks cfg largest (some state) times now)
    (hex : !state.expired now || state.counts.all fun t => !(now - state.window < t)) :
    Tracks cfg largest (some (state.check cfg now).2)
      (times ++ if (state.check cfg now).1 = .allowed then [now] else []) now := by
  have hc : Tracks cfg largest (some ((state.unblockExpired now).count cfg now).2)
      (times ++ if ((state.unblockExpired now).count cfg now).1 = .allowed then [now] else [])
      now := by
    refine Tracks.count ?_
    unfold LimiterState.unblockExpired
    split
    next he =>
      rw [he, Bool.not_true] at hex
      exact (h.forget hex).2.reblock rfl rfl rfl
    · exact h
  unfold LimiterState.check
  split
  · split
    · rw [if_neg (by simp), append_nil]
      exact h
    · exact hc
  · exact hc

end Tracks

/-! ### What a step does to the state of a key -/

section Step

variable {cfg : RateLimitConfig} {limiters : Limiters} {key : String}

theorem key_check (now : Time) (state : LimiterState) : (state.check cfg now).2.key = state.key := by
  have hc : ∀ state : LimiterState, (state.count cfg now).2.key = state.key := by
    intro state
    unfold LimiterState.count
    dsimp only
    split <;> rfl
  have he : (state.unblockExpired now).key = state.key := by
    unfold LimiterState.unblockExpired
    split <;> rfl
  unfold LimiterState.check
  split
  · split
    · rfl
    · rw [hc, he]
  · rw [hc, he]

theorem key_getD (key : String) (limit : Int) : ((limiters.find? key).getD (newState cfg key limit)).key = key := by
  cases hf : limiters.find? key with
  | none => rfl
  | some state => exact Table.key_of_find? hf

theorem find?_unblock (key' : String) : (unblock key' limiters).find? key =
      if key = key' then
        (limiters.find? key').map fun state =>
          { state with blocked := false, blockedAt := none, blockUntil := none }
      else limiters.find? key := by
  unfold unblock
  cases hf : limiters.find? key' with
  | none =>
    by_cases hk : key = key'
    · rw [if_pos hk, hk]
      exact hf
    · rw [if_neg hk]
  | some state =>
    have hk' : state.key = key' := Table.key_of_find? hf
    simp [find?_put, hk']

variable {largest : Int} {times : List Time} {last now : Time} {key' : String}

theorem tracks_checkKey {entry : AuditEntry}
    (hl : ∀ limit ∈ assignedLimits cfg key, limit ≤ largest)
    (hg : (RateEvent.checkKey now key' entry).generated = true)
    (hok : rateStepOk cfg key largest limiters (.checkKey now key' entry) = true)
    (h : Tracks cfg largest (limiters.find? key) times now) :
    Tracks cfg largest ((checkKey cfg now key' entry limiters).2.find? key)
      (times ++ if (RateEvent.checkKey now key' entry).allows cfg key limiters then [now] else [])
      now := by
  simp only [checkKey, find?_put, key_check, key_getD]
  by_cases hk : key = key'
  · subst hk
    have ha : (RateEvent.checkKey now key entry).allows cfg key limiters = true ↔
        (((limiters.find? key).getD (newState cfg key (determineLimit cfg entry))).check cfg
          now).1 = .allowed := by
      simp only [RateEvent.allows, checkKey, decide_true, Bool.true_and]
      exact decide_eq_true_iff
    simp only [ha, if_true]
    -- the state that is checked, found or new, is one that keeps the bound
    refine Tracks.check ?_ ?_
    · cases hf : limiters.find? key with
      | none =>
        rw [hf] at h
        exact h.create (hl _ ⟨entry, of_decide_eq_true hg, rfl⟩) key
      | some state =>
        rw [hf] at h
        exact h
    · cases hf : limiters.find? key with
      | none => rfl
      | some state => simpa [rateStepOk, hf] using hok
  · have ha : ¬(RateEvent.checkKey now key' entry).allows cfg key limiters = true := by
      simp [RateEvent.allows, Ne.symm hk]
    rw [if_neg hk, if_neg ha, append_nil]
    exact h

theorem tracks_triggerBlock {duration : Int}
    (hok : rateStepOk cfg key largest limiters (.triggerBlock now key' duration) = true)
    (h : Tracks cfg largest (limiters.find? key) times now) :
    Tracks cfg largest ((triggerBlock cfg now key' duration limiters).find? key) times now := by
  simp only [triggerBlock, find?_put, key_getD]
  by_cases hk : key = key'
  · subst hk
    rw [if_pos rfl]
    cases hf : limiters.find? key with
    | none =>
      rw [hf] at h
      have hl : cfg.defaultLimit ≤ largest := by simpa [rateStepOk, hf] using hok
      exact (h.create hl key).reblock rfl rfl rfl
    | some state =>
      rw [hf] at h
      exact h.reblock rfl rfl rfl
  · rw [if_neg hk]
    exact h

theorem tracks_unblock (h : Tracks cfg largest (limiters.find? key) times now) :
    Tracks cfg largest ((unblock key' limiters).find? key) times now := by
  rw [find?_unblock]
  by_cases hk : key = key'
  · subst hk
    rw [if_pos rfl]
    cases hf : limiters.find? key with
    | none =>
      rw [hf] at h
      exact h
    | some state =>
      rw [hf] at h
      exact h.reblock rfl rfl rfl
  · rw [if_neg hk]
    exact h

/-- `Cleanup` removes only states without a time in the window. -/
theorem all_of_stale {state : LimiterState} (h : state.stale now = true) :
    state.counts.all (fun t => !(now - state.window < t)) = true := by
  simp only [LimiterState.stale, Bool.or_eq_true, Bool.and_eq_true, List.isEmpty_iff] at h
  rcases h with he | hen
  · rw [he.1]
    rfl
  · exact hen.2

theorem tracks_cleanup (h : Tracks cfg largest (limiters.find? key) times now) :
    Tracks cfg largest ((cleanup now limiters).find? key) times now := by
  unfold cleanup
  rw [Table.find?_filter]
  cases hf : limiters.find? key with
  | none =>
    rw [hf] at h
    exact h
  | some state =>
    rw [hf] at h
    cases hs : state.stale now with
    | false =>
      simp only [Option.filter, hs]
      exact h
    | true =>
      simp only [Option.filter, hs]
      exact (h.forget (all_of_stale hs)).1

theorem tracks_step {event : RateEvent} (hl : ∀ limit ∈ assignedLimits cfg key, limit ≤ largest)
    (hg : event.generated = true) (hok : rateStepOk cfg key largest limiters event = true)
    (hn : last ≤ event.now) (h : Tracks cfg largest (limiters.find? key) times last) :
    Tracks cfg largest ((rateStep cfg limiters event).find? key)
      (times ++ if event.allows cfg key limiters then [event.now] else []) event.now := by
  have hla := h.later hn
  cases event with
  | checkKey now key' entry => exact tracks_checkKey hl hg hok hla
  | triggerBlock now key' duration =>
    show Tracks _ _ _ (times ++ []) now
    rw [append_nil]
    exact tracks_triggerBlock hok hla
  | unblock now key' =>
    show Tracks _ _ _ (times ++ []) now
    rw [append_nil]
    exact tracks_unblock hla
  | cleanup now =>
    show Tracks _ _ _ (times ++ []) now
    rw [append_nil]
    exact tracks_cleanup hla

theorem tracks_run {events : List RateEvent}
    (hl : ∀ limit ∈ assignedLimits cfg key, limit ≤ largest)
    (ht : (events.map RateEvent.now).Pairwise (· ≤ ·))
    (hlast : ∀ event ∈ events, last ≤ event.now) (hg : ∀ event ∈ events, event.generated = true)
    (hok : Run.AllSteps (rateStep cfg) (fun limiters event =>
      rateStepOk cfg key largest limiters event = true) limiters events)
    (h : Tracks cfg largest (limiters.find? key) times last) :
    Window.Bounded cfg.defaultWindow largest (times ++ allowedTimes cfg key limiters events) := by
  induction events generalizing limiters times last with
  | nil =>
    rw [allowedTimes, append_nil]
    exact h.bounded
  | cons event events ih =>
    rw [map_cons, pairwise_cons] at ht
    rw [allowedTimes, ← append_assoc]
    refine ih ht.2 (fun event' he' => ht.1 _ (mem_map_of_mem he'))
      (fun event' he' => hg event' (mem_cons_of_mem _ he')) hok.2 ?_
    exact tracks_step hl (hg event mem_cons_self) hok.1 (hlast event mem_cons_self) h

end Step

/-- **The limit holds in every window** of a run, if every check that finds an ended block finds no
time that is still in the window, and no block for an unknown key comes with a limit beyond the
largest one that the configuration assigns to the key. -/
theorem rate_limit_holds (cfg : RateLimitConfig) (key : String) (largest : Int)
    (hlargest : IsGreatest (assignedLimits cfg key) largest) (hnonneg : 0 ≤ largest)
    (events : List RateEvent) (htimes : (events.map RateEvent.now).Pairwise (· ≤ ·))
    (hgenerated : ∀ event ∈ events, event.generated = true)
    (hok : Run.AllSteps (rateStep cfg) (fun limiters event =>
      rateStepOk cfg key largest limiters event = true) empty events) (t : Time) :
    let allowed := allowedTimes cfg key empty events
    (allowed.countP fun x => t ≤ x ∧ x < t + cfg.defaultWindow : Int) ≤ largest ∧
      (allowed.countP fun x => t < x ∧ x ≤ t + cfg.defaultWindow : Int) ≤ largest := by
  cases events with
  | nil => exact ⟨hnonneg, hnonneg⟩
  | cons event events =>
    have hlast : ∀ event' ∈ event :: events, event.now ≤ event'.now := by
      intro event' he'
      rw [map_cons, pairwise_cons] at htimes
      rcases mem_cons.mp he' with hf | hrest
      · rw [hf]
      · exact htimes.1 _ (mem_map_of_mem hrest)
    have hs : Tracks cfg largest ((empty : Limiters).find? key) [] event.now :=
      ⟨fun _ => ⟨hnonneg, hnonneg⟩, fun _ _ => rfl, fun _ hsome => by cases hsome⟩
    exact tracks_run (fun limit hl => hlargest.2 hl) htimes hlast hgenerated hok hs t

def sampleRateConfig (blockDuration : Int) : RateLimitConfig :=
  { enabled := true, defaultLimit := 1, defaultWindow := 10, blockDuration, bypassRoles := []
    limitsByAction := .empty, limitsByTable := .empty }

def sampleRateEntry : AuditEntry :=
  { id := 0, timestamp := 0, nodeID := "", jobID := "", operationID := "", roleUsed := ""
    action := "SELECT", tableName := "", query := "", queryHash := "", rowsAffected := 0
    durationMS := 0, sourceComponent := "", actor := "", metadata := "null", prevHash := ""
    entryHash := ""
    flags := { breakGlass := false, rateLimited := false, suspicious := false
               alertTriggered := false } }

/-- What a `Check` of the entry does if the key `global` is allowed. -/
def sampleCheck (now : Time) : List RateEvent :=
  [.checkKey now "global" sampleRateEntry, .checkKey now "action:SELECT" sampleRateEntry]

theorem isGreatest_sampleRateConfig (blockDuration : Int) :
    IsGreatest (assignedLimits (sampleRateConfig blockDuration) "global") 1 := by
  refine ⟨⟨sampleRateEntry, by simp [generateKeys], rfl⟩, ?_⟩
  rintro limit ⟨entry, -, rfl⟩
  exact Int.le_refl 1

theorem rate_limit_holds_long_block : allowedTimes (sampleRateConfig 20) "global" empty
        (sampleCheck 0 ++ [.checkKey 1 "global" sampleRateEntry] ++ sampleCheck 22) = [0, 22] ∧
      ([0, 22].countP fun x : Time => 0 ≤ x ∧ x < 0 + 10 : Int) ≤ 1 ∧
      ([0, 22].countP fun x : Time => 0 < x ∧ x ≤ 0 + 10 : Int) ≤ 1 := by
  have ht : allowedTimes (sampleRateConfig 20) "global" empty
      (sampleCheck 0 ++ [.checkKey 1 "global" sampleRateEntry] ++ sampleCheck 22) = [0, 22] := by
    decide +kernel
  have hb := rate_limit_holds (sampleRateConfig 20) "global" 1 (isGreatest_sampleRateConfig 20)
    (by decide) (sampleCheck 0 ++ [.checkKey 1 "global" sampleRateEntry] ++ sampleCheck 22)
    (by decide +kernel) (by decide +kernel) (by decide +kernel) 0
  exact ⟨ht, hb⟩

/-- A block that is shorter than the window: when it has ended, the first operation is forgotten. -/
theorem short_block_doubles_rate :
    let events := sampleCheck 0 ++ [.checkKey 1 "global" sampleRateEntry] ++ sampleCheck 3
    let allowed := allowedTimes (sampleRateConfig 1) "global" empty events
    IsGreatest (assignedLimits (sampleRateConfig 1) "global") 1 ∧
      (events.map RateEvent.now).Pairwise (· ≤ ·) ∧
      (∀ event ∈ events, event.generated = true) ∧
      (allowed.countP fun x => 0 ≤ x ∧ x < 0 + (sampleRateConfig 1).defaultWindow) = 2 :=
  ⟨isGreatest_sampleRateConfig 1, by decide +kernel, by decide +kernel, by decide +kernel⟩

end Bib.Audit
