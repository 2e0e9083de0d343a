import Bib.Audit.Logger
import Bib.Lib.Dfs

/-!
# Bib.Audit.Alerts

**Alerts on the way to the exporters** (`Check` of `audit/alerts.go`, `Log` of `logger.go`, `Export` of
`file.go`). An alert points to the entry that triggered it, and `Log` keeps the alerts in the metadata of that
same entry.

Entries are objects on a heap, and an alert holds an address. CEL programs are a parameter, and so is
`json.Marshal`, which succeeds on values that end. The streamer and the syslog exporter are left out.
-/

namespace Bib.Audit.Alerts

open Bib.Lib Bib.Domain List

/-! ### The detector -/

structure ThresholdRule where
  (name description : String)
  enabled : Bool
  (action table role : String)
  (threshold window : Int)
  (groupBy severity : String)
  triggerRateLimit : Bool

/-- `CELRuleConfig`; its program is known by it. -/
structure CELRule where
  (name description : String)
  enabled : Bool
  (expression severity : String)
  triggerRateLimit : Bool

structure AlertConfig where
  enabled : Bool
  thresholdRules : List ThresholdRule
  celRules : List CELRule

structure Alert where
  (id ruleName description severity : String)
  timestamp : Time
  entry : Nat
  (count threshold : Int)
  triggerRateLimit : Bool
  metadata : List (String × String)

/-- `alertCounter`, without the fields that are not read. -/
structure Counter where
  counts : List Time
  window : Int

abbrev Counters := KeyMap String Counter

structure DetectorTools where
  windowText : Int → String
  /-- The program of the rule evaluates to true on the entry. -/
  evaluates : CELRule → AuditEntry → Bool

/-- What the clock and `GenerateOperationID` return while a rule is checked. -/
structure Stamp where
  (now timestamp : Time)
  id : String

def getGroupValue (entry : AuditEntry) (groupBy : String) : String :=
  match groupBy with
  | "actor" => entry.actor
  | "node_id" => entry.nodeID
  | "role" => entry.roleUsed
  | "table" => entry.tableName
  | "action" => entry.action
  | "source" => entry.sourceComponent
  | _ => "global"

def live (now : Time) (window : Int) (counts : List Time) : List Time := counts.filter fun t => now - window < t

/-- `make([]time.Time, 0, threshold*2)` does not panic: the product of two machine integers is a capacity
that fits into memory. -/
def capacityOk (threshold : Int) : Bool :=
  let capacity := (threshold * 2).bmod (2 ^ 64)
  0 ≤ capacity && capacity * 24 ≤ 2 ^ 48

/-- `incrementCounter`; `none` is a panic. -/
def incrementCounter (key : String) (threshold : Int) (window : Int) (now : Time) (counters : Counters) :
    Option Nat × Counters :=
  match counters.get? key with
  | none =>
    if capacityOk threshold then (some 1, counters.set key { counts := [now], window }) else (none, counters)
  | some counter =>
    let counts := live now window counter.counts ++ [now]
    (some counts.length, counters.set key { counter with counts })

def ThresholdRule.applies (rule : ThresholdRule) (entry : AuditEntry) : Bool :=
  (rule.action = "" || rule.action = entry.action) && (rule.table = "" || rule.table = entry.tableName) &&
    (rule.role = "" || rule.role = entry.roleUsed)

def ThresholdRule.counterKey (rule : ThresholdRule) (entry : AuditEntry) : String :=
  rule.name ++ ":" ++ rule.groupBy ++ ":" ++ getGroupValue entry rule.groupBy

section Detector

variable (tools : DetectorTools) (address : Nat) (entry : AuditEntry)

def checkThresholdRule (stamp : Stamp) (rule : ThresholdRule) (counters : Counters) :
    Option (Option Alert) × Counters :=
  if !rule.applies entry then (some none, counters)
  else
    match incrementCounter (rule.counterKey entry) rule.threshold rule.window stamp.now counters with
    | (none, counters) => (none, counters)
    | (some count, counters) =>
      if rule.threshold ≤ count then
        (some (some
          { id := stamp.id
            ruleName := rule.name
            description := rule.description
            severity := rule.severity
            timestamp := stamp.timestamp
            entry := address
            count := count
            threshold := rule.threshold
            triggerRateLimit := rule.triggerRateLimit
            metadata := [("group_by", rule.groupBy), ("group_value", getGroupValue entry rule.groupBy),
              ("window", tools.windowText rule.window)] }), counters)
      else (some none, counters)

def checkCELRule (stamp : Stamp) (rule : CELRule) : Option Alert :=
  if tools.evaluates rule entry then
    some
      { id := stamp.id
        ruleName := rule.name
        description := rule.description
        severity := rule.severity
        timestamp := stamp.timestamp
        entry := address
        count := 0
        threshold := 0
        triggerRateLimit := rule.triggerRateLimit
        metadata := [("expression", rule.expression)] }
  else none

/-- The first loop of `Check`. The stamps of the rules are numbered from the last one. -/
def checkThresholdRules (stamps : Nat → Stamp) : List ThresholdRule → Counters → Option (List Alert) × Counters
  | [], counters => (some [], counters)
  | rule :: rules, counters =>
    if !rule.enabled then checkThresholdRules stamps rules counters
    else
      match checkThresholdRule tools address entry (stamps rules.length) rule counters with
      | (none, counters) => (none, counters)
      | (some alert, counters) =>
        let (alerts, counters) := checkThresholdRules stamps rules counters
        (alerts.map (alert.toList ++ ·), counters)

def checkCELRules (stamps : Nat → Stamp) : List CELRule → List Alert
  | [] => []
  | rule :: rules =>
    if !rule.enabled then checkCELRules stamps rules
    else (checkCELRule tools address entry (stamps rules.length) rule).toList ++ checkCELRules stamps rules

def check (cfg : AlertConfig) (stamps celStamps : Nat → Stamp) (counters : Counters) :
    Option (List Alert) × Counters :=
  if !cfg.enabled then (some [], counters)
  else
    let (alerts, counters) := checkThresholdRules tools address entry stamps cfg.thresholdRules counters
    (alerts.map (· ++ checkCELRules tools address entry celStamps cfg.celRules), counters)

end Detector

def cleanup (now : Time) (counters : Counters) : Counters :=
  Table.filter (fun row => live now row.2.window row.2.counts ≠ []) counters

/-! ### The logger -/

/-- An `Entry`: its fields with the rest of the metadata, and the alerts in the metadata. -/
structure Entry where
  fields : AuditEntry
  alerts : List Alert

inductive Sink
  | repository
  | file
  | s3

/-- `Config`, as far as `Log` depends on it: the alerts, and which sinks there are. -/
structure Config where
  alerts : AlertConfig
  (repository file s3 : Bool)

/-- A call of `Log`. The alerts of `logCall` are not used: they are found here. -/
structure Call where
  logCall : LogCall
  (stamps celStamps : Nat → Stamp)
  fails : Bool

/-- The logger with what it has handed out. -/
structure World where
  logger : Logger
  counters : Counters
  heap : List Entry
  handed : List (Sink × Nat)
  returned : List Nat
  /-- The lines of the audit file, each with the entry it is of. -/
  lines : List (Nat × String)

def World.start (logger : Logger) : World := ⟨logger, .empty, [], [], [], []⟩

inductive Event
  | log (call : Call)
  | cleanup (now : Time)

def Config.stops (cfg : Config) (fails : Bool) : Bool := cfg.repository && fails

def Config.reached (cfg : Config) (fails : Bool) : List Sink :=
  (if cfg.repository then [.repository] else []) ++
    if cfg.stops fails then []
    else (if cfg.file then [.file] else []) ++ if cfg.s3 then [.s3] else []

section Log

variable (env : Env) (tools : Tools) (detect : DetectorTools) (marshal : List Entry → Nat → Option String)
  (cfg : Config)

/-- `createEntry`, before the detector has seen the entry. -/
def Call.entry (call : Call) (logger : Logger) : AuditEntry :=
  createEntry tools { call.logCall with alerts := [] } logger

/-- `Export` of the file exporter; the error is not looked at. -/
def exportLine (heap : List Entry) (address : Nat) : List (Nat × String) :=
  match marshal heap address with
  | none => []
  | some line => [(address, line)]

/-- `Log` behind the critical section. -/
def World.deliver (call : Call) (e : Entry) (w : World) : World :=
  let address := w.heap.length
  let heap := w.heap ++ [e]
  { w with
    heap
    handed := w.handed ++ (cfg.reached call.fails).map fun sink => (sink, address)
    returned := if cfg.stops call.fails then w.returned else w.returned ++ [address]
    lines := if cfg.file && !cfg.stops call.fails then w.lines ++ exportLine marshal heap address else w.lines }

/-- `Log` behind the detector. -/
def World.finish (call : Call) (entry : AuditEntry) (alerts : List Alert) (w : World) : World :=
  let flagged := alerts ≠ []
  let entry := { entry with flags := { entry.flags with suspicious := flagged, alertTriggered := flagged } }
  let (fields, logger) := assignHash env entry w.logger
  World.deliver marshal cfg call { fields, alerts } { w with logger }

/-- `Log`. If the detector panics, the entry goes nowhere. -/
def World.log (call : Call) (w : World) : World :=
  if !w.logger.active then w
  else
    let entry := call.entry tools w.logger
    match check detect w.heap.length entry cfg.alerts call.stamps call.celStamps w.counters with
    | (none, counters) => { w with counters }
    | (some alerts, counters) => World.finish env marshal cfg call entry alerts { w with counters }

def step (w : World) : Event → World
  | .log call => w.log env tools detect marshal cfg call
  | .cleanup now => { w with counters := cleanup now w.counters }

end Log

/-! ### Finite values -/

def PointsTo (heap : List Entry) (a b : Nat) : Prop :=
  ∃ e, heap[a]? = some e ∧ ∃ alert ∈ e.alerts, alert.entry = b

/-- The value at the address ends: following its pointers always comes to an end. -/
def FiniteValue (heap : List Entry) (a : Nat) : Prop := Acc (fun b a => PointsTo heap a b) a

/-- What is handed out is finite, and what was logged is in the file, if there is one. -/
def Exported (cfg : Config) (w : World) : Prop :=
  (∀ p ∈ w.handed, FiniteValue w.heap p.2) ∧
    (cfg.file = true → ∀ a ∈ w.returned, ∃ line, (a, line) ∈ w.lines)

/-! ### Calls without an alert -/

def ThresholdRule.Counts (rule : ThresholdRule) (entry : AuditEntry) : Prop :=
  rule.enabled = true ∧ rule.applies entry = true

/-- The counter of the rule reaches the threshold with one more time. -/
def ThresholdRule.Fires (rule : ThresholdRule) (entry : AuditEntry) (now : Time) (counters : Counters) : Prop :=
  rule.Counts entry ∧ rule.threshold ≤
    (live now rule.window (((counters.get? (rule.counterKey entry)).map Counter.counts).getD [])).length + 1

/-- The rule has no counter yet, and none can be made. -/
def ThresholdRule.Panics (rule : ThresholdRule) (entry : AuditEntry) (counters : Counters) : Prop :=
  rule.Counts entry ∧ counters.get? (rule.counterKey entry) = none ∧ capacityOk rule.threshold = false

def ThresholdRule.counted (rule : ThresholdRule) (entry : AuditEntry) (now : Time) (counters : Counters) : Counters :=
  if rule.enabled && rule.applies entry then
    (incrementCounter (rule.counterKey entry) rule.threshold rule.window now counters).2
  else counters

def SomePanics (entry : AuditEntry) (stamps : Nat → Stamp) : List ThresholdRule → Counters → Prop
  | [], _ => False
  | rule :: rules, counters =>
    rule.Panics entry counters ∨
      SomePanics entry stamps rules (rule.counted entry (stamps rules.length).now counters)

def NoneFires (entry : AuditEntry) (stamps : Nat → Stamp) : List ThresholdRule → Counters → Prop
  | [], _ => True
  | rule :: rules, counters =>
    ¬ rule.Fires entry (stamps rules.length).now counters ∧
      NoneFires entry stamps rules (rule.counted entry (stamps rules.length).now counters)

/-- The detector is off or panics, or no rule speaks up. -/
def Calm (detect : DetectorTools) (cfg : AlertConfig) (entry : AuditEntry) (stamps : Nat → Stamp)
    (counters : Counters) : Prop :=
  cfg.enabled = false ∨ SomePanics entry stamps cfg.thresholdRules counters ∨
    (NoneFires entry stamps cfg.thresholdRules counters ∧
      ∀ rule ∈ cfg.celRules, rule.enabled = true → detect.evaluates rule entry = false)

/-- A call that nobody gets the entry of, or a calm one. -/
def EventOk (tools : Tools) (detect : DetectorTools) (cfg : Config) (w : World) : Event → Prop
  | .cleanup _ => True
  | .log call =>
    w.logger.active = false ∨ (cfg.repository = false ∧ cfg.file = false ∧ cfg.s3 = false) ∨
      Calm detect cfg.alerts (call.entry tools w.logger) call.stamps w.counters

section Rules

variable {tools : DetectorTools} {address : Nat} {entry : AuditEntry} {counters : Counters}
  {rule : ThresholdRule} {stamps : Nat → Stamp}

def ThresholdRule.recent (rule : ThresholdRule) (entry : AuditEntry) (now : Time) (counters : Counters) : List Time :=
  live now rule.window (((counters.get? (rule.counterKey entry)).map Counter.counts).getD [])

theorem incrementCounter_of_not_panics (hcu : rule.Counts entry) (h : ¬ rule.Panics entry counters) (now : Time) :
    incrementCounter (rule.counterKey entry) rule.threshold rule.window now counters =
      (some ((rule.recent entry now counters).length + 1), rule.counted entry now counters) := by
  have hco : rule.counted entry now counters =
      (incrementCounter (rule.counterKey entry) rule.threshold rule.window now counters).2 := by
    rw [ThresholdRule.counted, hcu.1, hcu.2]
    rfl
  refine Prod.ext ?_ hco.symm
  unfold incrementCounter ThresholdRule.recent
  cases hg : counters.get? (rule.counterKey entry) with
  | none =>
    have hc : capacityOk rule.threshold = true := by
      by_contra hb
      exact h ⟨hcu, hg, Bool.eq_false_iff.mpr hb⟩
    rw [if_pos hc]
    rfl
  | some counter => simp

variable (tools address entry counters stamps) in
theorem checkThresholdRule_cases (he : rule.enabled = true) (stamp : Stamp) :
    (rule.Panics entry counters ∧
      (checkThresholdRule tools address entry stamp rule counters).1 = none) ∨
    (¬ rule.Panics entry counters ∧ ∃ alert : Option Alert,
      checkThresholdRule tools address entry stamp rule counters =
        (some alert, rule.counted entry stamp.now counters) ∧
      (alert = none ↔ ¬ rule.Fires entry stamp.now counters) ∧
      ∀ x ∈ alert, x.entry = address ∧ x.ruleName = rule.name) := by
  unfold checkThresholdRule
  by_cases ha : rule.applies entry = true
  · have hc : rule.Counts entry := ⟨he, ha⟩
    rw [if_neg (by simp [ha])]
    by_cases hp : rule.Panics entry counters
    · refine .inl ⟨hp, ?_⟩
      simp [incrementCounter, hp.2.1, hp.2.2]
    · refine .inr ⟨hp, ?_⟩
      have hf : rule.Fires entry stamp.now counters ↔
          rule.threshold ≤ ((rule.recent entry stamp.now counters).length + 1 : Nat) := and_iff_right hc
      rw [incrementCounter_of_not_panics hc hp]
      dsimp only
      by_cases hle : rule.threshold ≤ ((rule.recent entry stamp.now counters).length + 1 : Nat)
      · rw [if_pos hle]
        refine ⟨some _, rfl, by simp [hf.mpr hle], ?_⟩
        intro x hx
        cases hx
        exact ⟨rfl, rfl⟩
      · rw [if_neg hle]
        exact ⟨none, rfl, iff_of_true rfl (mt hf.mp hle), fun x hx => absurd hx (Option.not_mem_none x)⟩
  · rw [if_pos (by simp [ha])]
    refine .inr ⟨fun h => ha h.1.2, none, ?_, iff_of_true rfl fun h => ha h.1.2,
      fun x hx => absurd hx (Option.not_mem_none x)⟩
    rw [ThresholdRule.counted, if_neg (by simp [ha])]

variable (tools address entry stamps) in
/-- What the first loop comes to: a panic, or alerts that all point to the entry. -/
theorem checkThresholdRules_cases (rules : List ThresholdRule) (counters : Counters) :
    (SomePanics entry stamps rules counters ∧
      (checkThresholdRules tools address entry stamps rules counters).1 = none) ∨
    (¬ SomePanics entry stamps rules counters ∧ ∃ alerts : List Alert,
      (checkThresholdRules tools address entry stamps rules counters).1 = some alerts ∧
      (alerts = [] ↔ NoneFires entry stamps rules counters) ∧ ∀ x ∈ alerts, x.entry = address) := by
  induction rules generalizing counters with
  | nil => exact .inr ⟨id, [], rfl, iff_of_true rfl trivial, fun x hx => (not_mem_nil hx).elim⟩
  | cons rule rules ih =>
    unfold checkThresholdRules SomePanics NoneFires
    by_cases he : rule.enabled = true
    · rw [if_neg (by simp [he])]
      obtain ⟨hp, hnone⟩ | ⟨hp, alert, hpa, hf, ha⟩ :=
        checkThresholdRule_cases tools address entry counters he (stamps rules.length)
      · refine .inl ⟨.inl hp, ?_⟩
        generalize checkThresholdRule tools address entry (stamps rules.length) rule counters = result at hnone ⊢
        obtain ⟨first, counters'⟩ := result
        cases hnone
        rfl
      · rw [hpa, or_iff_right hp]
        obtain ⟨hl, hnone⟩ | ⟨hl, alerts, hsome, hn, had⟩ :=
          ih (rule.counted entry (stamps rules.length).now counters)
        · exact .inl ⟨hl, by simp [hnone]⟩
        · refine .inr ⟨hl, alert.toList ++ alerts, by simp [hsome], ?_, ?_⟩
          · rw [append_eq_nil_iff, hn, Option.toList_eq_nil_iff, hf]
          · intro x hx
            rcases mem_append.mp hx with hx | hx
            · exact (ha x (Option.mem_toList.mp hx)).1
            · exact had x hx
    · -- a rule that is not enabled neither counts nor panics
      have hc : rule.counted entry (stamps rules.length).now counters = counters := by
        rw [ThresholdRule.counted, if_neg (by simp [he])]
      have hp : ¬ rule.Panics entry counters := fun h => he h.1.1
      have hf : ¬ rule.Fires entry (stamps rules.length).now counters := fun h => he h.1.1
      rw [if_pos (by simp [he]), hc, or_iff_right hp, and_iff_right hf]
      exact ih counters

theorem checkCELRules_eq_nil_iff (rules : List CELRule) :
    checkCELRules tools address entry stamps rules = [] ↔
      ∀ rule ∈ rules, rule.enabled = true → tools.evaluates rule entry = false := by
  induction rules with
  | nil => simp [checkCELRules]
  | cons rule rules ih =>
    rw [forall_mem_cons, ← ih, checkCELRules]
    by_cases he : rule.enabled = true
    · by_cases hev : tools.evaluates rule entry = true <;> simp [he, hev, checkCELRule]
    · simp [he]

theorem entry_of_checkCELRules {rules : List CELRule} {x : Alert}
    (hx : x ∈ checkCELRules tools address entry stamps rules) : x.entry = address := by
  induction rules with
  | nil => cases hx
  | cons rule rules ih =>
    rw [checkCELRules] at hx
    split at hx
    · exact ih hx
    · rcases mem_append.mp hx with hx | hx
      · rw [checkCELRule] at hx
        split at hx
        · rw [Option.toList_some, mem_singleton] at hx
          rw [hx]
        · cases hx
      · exact ih hx

variable (tools address entry counters stamps) in
theorem check_cases (cfg : AlertConfig) (celStamps : Nat → Stamp) :
    (Calm tools cfg entry stamps counters ∧
      (check tools address entry cfg stamps celStamps counters).1 = none) ∨
    ∃ alerts : List Alert, (check tools address entry cfg stamps celStamps counters).1 = some alerts ∧
      (alerts = [] ↔ Calm tools cfg entry stamps counters) ∧ ∀ x ∈ alerts, x.entry = address := by
  unfold check Calm
  by_cases he : cfg.enabled = true
  · have hon : ¬ cfg.enabled = false := by simp [he]
    rw [if_neg (by simp [he]), or_iff_right hon]
    obtain ⟨hp, hnone⟩ | ⟨hp, alerts, hsome, hn, ha⟩ :=
      checkThresholdRules_cases tools address entry stamps cfg.thresholdRules counters
    · exact .inl ⟨.inl hp, by simp [hnone]⟩
    · refine .inr ⟨alerts ++ checkCELRules tools address entry celStamps cfg.celRules, by simp [hsome], ?_, ?_⟩
      · rw [append_eq_nil_iff, hn, checkCELRules_eq_nil_iff, or_iff_right hp]
      · intro x hx
        rcases mem_append.mp hx with hx | hx
        · exact ha x hx
        · exact entry_of_checkCELRules hx
  · have ho : cfg.enabled = false := Bool.eq_false_iff.mpr he
    rw [if_pos (by simp [ho])]
    exact .inr ⟨[], rfl, iff_of_true rfl (.inl ho), fun x hx => (not_mem_nil hx).elim⟩

end Rules

/-! ### Runs -/

/-- Every alert points to the entry it is kept in. -/
def SelfPointing (heap : List Entry) : Prop :=
  ∀ (a : Nat) (e : Entry), heap[a]? = some e → ∀ alert ∈ e.alerts, alert.entry = a

variable {heap : List Entry}

theorem finiteValue_iff (h : SelfPointing heap) (a : Nat) :
    FiniteValue heap a ↔ ∀ e, heap[a]? = some e → e.alerts = [] := by
  constructor
  · intro hf e he
    by_contra hne
    obtain ⟨alert, ha⟩ := exists_mem_of_ne_nil _ hne
    exact Dfs.not_rel_of_acc hf ⟨e, he, alert, ha, h a e he alert ha⟩
  · intro hnone
    refine Acc.intro a ?_
    intro b hb
    obtain ⟨e, he, alert, ha, -⟩ := hb
    rw [hnone e he] at ha
    cases ha

theorem SelfPointing.append (h : SelfPointing heap) {e : Entry}
    (he : ∀ alert ∈ e.alerts, alert.entry = heap.length) : SelfPointing (heap ++ [e]) := by
  intro a e' he'
  rcases Nat.lt_or_ge a heap.length with hlt | hge
  · rw [getElem?_append_left hlt] at he'
    exact h a e' he'
  · rw [getElem?_append_right hge, getElem?_singleton] at he'
    split at he'
    · cases he'
      rw [show a = heap.length by omega]
      exact he
    · cases he'

theorem finiteValue_append (h : SelfPointing heap) {e : Entry}
    (he : ∀ alert ∈ e.alerts, alert.entry = heap.length) :
    (FiniteValue (heap ++ [e]) heap.length ↔ e.alerts = []) ∧
      ∀ a < heap.length, FiniteValue heap a → FiniteValue (heap ++ [e]) a := by
  have hs := h.append he
  constructor
  · rw [finiteValue_iff hs]
    simp
  · intro a ha hf
    rw [finiteValue_iff h] at hf
    rw [finiteValue_iff hs, getElem?_append_left ha]
    exact hf

structure World.Inv (w : World) : Prop where
  selfPointing : SelfPointing w.heap
  handed_lt : ∀ p ∈ w.handed, p.2 < w.heap.length

theorem reached_eq_nil_iff {cfg : Config} {fails : Bool} :
    cfg.reached fails = [] ↔ cfg.repository = false ∧ cfg.file = false ∧ cfg.s3 = false := by
  obtain ⟨alerts, repository, file, s3⟩ := cfg
  cases repository <;> cases file <;> cases s3 <;> cases fails <;> simp [Config.reached, Config.stops]

section Runs

variable {env : Env} {tools : Tools} {detect : DetectorTools} {marshal : List Entry → Nat → Option String}
  {cfg : Config} {w : World} {call : Call} {e : Entry}

theorem inv_deliver (h : w.Inv) (he : ∀ alert ∈ e.alerts, alert.entry = w.heap.length) :
    (w.deliver marshal cfg call e).Inv := by
  refine ⟨h.selfPointing.append he, ?_⟩
  intro p hp
  show p.2 < (w.heap ++ [_]).length
  rw [length_append]
  rcases mem_append.mp hp with hp | hp
  · exact Nat.lt_add_right _ (h.handed_lt p hp)
  · obtain ⟨sink, -, rfl⟩ := mem_map.mp hp
    exact Nat.lt_add_one _

theorem exported_deliver_iff (hm : ∀ heap a, (marshal heap a).isSome = true ↔ FiniteValue heap a)
    (h : w.Inv) (hw : Exported cfg w) (he : ∀ alert ∈ e.alerts, alert.entry = w.heap.length) :
    Exported cfg (w.deliver marshal cfg call e) ↔
      (cfg.repository = false ∧ cfg.file = false ∧ cfg.s3 = false) ∨ e.alerts = [] := by
  obtain ⟨hnew, hold⟩ := finiteValue_append h.selfPointing he
  constructor
  · intro hex
    by_cases hr : cfg.reached call.fails = []
    · exact .inl (reached_eq_nil_iff.mp hr)
    · obtain ⟨sink, hsi⟩ := exists_mem_of_ne_nil _ hr
      exact .inr (hnew.mp (hex.1 (sink, w.heap.length)
        (mem_append_right _ (mem_map_of_mem hsi))))
  · intro hc
    refine ⟨?_, ?_⟩
    · intro p hp
      rcases mem_append.mp hp with hp | hp
      · exact hold p.2 (h.handed_lt p hp) (hw.1 p hp)
      · obtain ⟨sink, hsi, rfl⟩ := mem_map.mp hp
        rcases hc with hnone | hn
        · rw [reached_eq_nil_iff.mpr hnone] at hsi
          cases hsi
        · exact hnew.mpr hn
    · intro hf a ha
      have hn : e.alerts = [] := hc.resolve_left fun hnone => by simp [hnone.2.1] at hf
      obtain ⟨line, hl⟩ := Option.isSome_iff_exists.mp ((hm _ _).mpr (hnew.mpr hn))
      unfold World.deliver at ha ⊢
      dsimp only at ha ⊢
      by_cases hs : cfg.stops call.fails = true
      · rw [if_pos hs] at ha
        rw [if_neg (by simp [hs])]
        exact hw.2 hf a ha
      · rw [if_neg hs] at ha
        rw [if_pos (by simp [hf, hs])]
        rcases mem_append.mp ha with ha | ha
        · obtain ⟨line, hl⟩ := hw.2 hf a ha
          exact ⟨line, mem_append_left _ hl⟩
        · obtain rfl := mem_singleton.mp ha
          refine ⟨line, mem_append_right _ ?_⟩
          rw [exportLine, hl]
          exact mem_singleton_self _

variable (env tools detect marshal cfg) in
theorem log_cases (w : World) (call : Call) :
    w.log env tools detect marshal cfg call = w ∧ w.logger.active = false ∨
    w.logger.active = true ∧ ∃ counters,
      (w.log env tools detect marshal cfg call = { w with counters } ∧
        Calm detect cfg.alerts (call.entry tools w.logger) call.stamps w.counters) ∨
      ∃ alerts, w.log env tools detect marshal cfg call =
          World.finish env marshal cfg call (call.entry tools w.logger) alerts { w with counters } ∧
        (alerts = [] ↔ Calm detect cfg.alerts (call.entry tools w.logger) call.stamps w.counters) ∧
        ∀ alert ∈ alerts, alert.entry = w.heap.length := by
  unfold World.log
  by_cases ha : w.logger.active = true
  · refine .inr ⟨ha, ?_⟩
    rw [if_neg (by simp [ha])]
    have hc := check_cases detect w.heap.length (call.entry tools w.logger) w.counters call.stamps
      cfg.alerts call.celStamps
    dsimp only
    generalize check detect w.heap.length (call.entry tools w.logger) cfg.alerts call.stamps call.celStamps
      w.counters = result at hc ⊢
    obtain ⟨found, counters⟩ := result
    refine ⟨counters, ?_⟩
    obtain ⟨hca, hnone⟩ | ⟨alerts, hsome, hs⟩ := hc
    · cases hnone
      exact .inl ⟨rfl, hca⟩
    · cases hsome
      exact .inr ⟨alerts, rfl, hs⟩
  · exact .inl ⟨if_pos (by simp [ha]), Bool.eq_false_iff.mpr ha⟩

theorem inv_step (h : w.Inv) (event : Event) : (step env tools detect marshal cfg w event).Inv := by
  cases event with
  | cleanup now => exact ⟨h.selfPointing, h.handed_lt⟩
  | log call =>
    show (w.log env tools detect marshal cfg call).Inv
    obtain ⟨heq, -⟩ | ⟨-, counters, ⟨heq, -⟩ | ⟨alerts, heq, -, ha⟩⟩ :=
      log_cases env tools detect marshal cfg w call
    · rw [heq]
      exact h
    · rw [heq]
      exact ⟨h.selfPointing, h.handed_lt⟩
    · rw [heq]
      exact inv_deliver ⟨h.selfPointing, h.handed_lt⟩ ha

theorem exported_step_iff (hm : ∀ heap a, (marshal heap a).isSome = true ↔ FiniteValue heap a)
    (h : w.Inv) (hw : Exported cfg w) (event : Event) :
    Exported cfg (step env tools detect marshal cfg w event) ↔ EventOk tools detect cfg w event := by
  cases event with
  | cleanup now => exact iff_of_true hw trivial
  | log call =>
    show Exported cfg (w.log env tools detect marshal cfg call) ↔ _ ∨ _ ∨ _
    obtain ⟨heq, ha⟩ | ⟨ha, counters, ⟨heq, hc⟩ | ⟨alerts, heq, hc, hal⟩⟩ :=
      log_cases env tools detect marshal cfg w call
    · rw [heq]
      exact iff_of_true hw (.inl ha)
    · rw [heq]
      exact iff_of_true hw (.inr (.inr hc))
    · have hon : ¬ w.logger.active = false := by simp [ha]
      rw [heq, or_iff_right hon, ← hc]
      exact exported_deliver_iff hm ⟨h.selfPointing, h.handed_lt⟩ hw hal

end Runs

/-- In a run, every entry is handed out as a finite value and reaches the file exactly if every call is calm or
keeps its entry from all sinks. -/
theorem alerted_entries_exported_iff (env : Env) (tools : Tools) (detect : DetectorTools)
    (marshal : List Entry → Nat → Option String)
    (hmarshal : ∀ heap a, (marshal heap a).isSome = true ↔ FiniteValue heap a) (cfg : Config)
    (logger : Logger) (events : List Event) : (∀ done, done <+: events →
      Exported cfg (done.foldl (step env tools detect marshal cfg) (World.start logger))) ↔
    Run.AllSteps (step env tools detect marshal cfg) (EventOk tools detect cfg) (World.start logger) events := by
  refine Run.forall_prefix_iff_allSteps World.Inv (Exported cfg) (fun _ event h => inv_step h event)
    (fun _ event h hw => exported_step_iff hmarshal h hw event) ⟨?_, ?_⟩ ⟨?_, ?_⟩
  · intro a e he
    cases he
  · intro p hp
    cases hp
  · intro p hp
    cases hp
  · intro _ a ha
    cases ha

open Classical in
noncomputable def encodeFinite (heap : List Entry) (a : Nat) : Option String :=
  if FiniteValue heap a then some "entry" else none

theorem isSome_encodeFinite (heap : List Entry) (a : Nat) :
    (encodeFinite heap a).isSome = true ↔ FiniteValue heap a := by
  unfold encodeFinite
  split <;> simp_all

def ruleWith (threshold : Int) : Config :=
  let rule : ThresholdRule := ⟨"bulk", "", true, "", "", "", threshold, 60, "actor", "high", false⟩
  { alerts := ⟨true, [rule], []⟩, repository := true, file := true, s3 := false }

def plainDetector : DetectorTools := { windowText := fun _ => "1m0s", evaluates := fun _ _ => false }

def plainCall : Event := .log ⟨poolCall "a", fun _ => ⟨0, 0, "id"⟩, fun _ => ⟨0, 0, "id"⟩, false⟩

theorem alerted_entries_exported_below_threshold :
    Exported (ruleWith 5) ([plainCall].foldl (step sampleEnv plainTools plainDetector encodeFinite (ruleWith 5))
      (World.start (newLogger ⟨true, true⟩ "n" []))) := by
  refine (alerted_entries_exported_iff sampleEnv plainTools plainDetector encodeFinite isSome_encodeFinite
    (ruleWith 5) (newLogger ⟨true, true⟩ "n" []) [plainCall]).mpr ⟨?_, trivial⟩ _ prefix_rfl
  refine .inr (.inr (.inr (.inr ⟨⟨?_, trivial⟩, ?_⟩)))
  · intro h
    exact absurd h.2 (by decide)
  · intro rule hr
    cases hr

/-- The entry that reaches the threshold holds an alert that points to it. `Log` returns nil, and the
file stays empty. -/
theorem alerted_entry_not_written :
    let w := [plainCall].foldl (step sampleEnv plainTools plainDetector encodeFinite (ruleWith 1))
      (World.start (newLogger ⟨true, true⟩ "n" []))
    w.handed = [(.repository, 0), (.file, 0)] ∧ w.returned = [0] ∧ ¬ FiniteValue w.heap 0 ∧ w.lines = [] ∧
      ¬ Exported (ruleWith 1) w := by
  intro w
  have hp : PointsTo w.heap 0 0 := by
    refine ⟨_, rfl, ?_⟩
    exact ⟨_, mem_cons_self, rfl⟩
  have hi : ¬ FiniteValue w.heap 0 := fun h => Dfs.not_rel_of_acc h hp
  have hl : w.lines = [] := by
    show exportLine encodeFinite w.heap 0 = []
    rw [exportLine, encodeFinite, if_neg hi]
  refine ⟨rfl, rfl, hi, hl, ?_⟩
  intro h
  exact hi (h.1 (.file, 0) (mem_cons_of_mem _ mem_cons_self))

end Bib.Audit.Alerts
