import Bib.Lib.Run
import Bib.Lib.Table

/-!
# Bib.P2p.Catalogs

**Catalogs of other nodes.** What two nodes lack of each other (`handleSyncState` in `p2p/protocol.go`), pages
of what peers answer to a query (`mode_proxy.go`, `mode_selective.go`), and the cache of the selective mode.

A request for an offset behind the last entry is answered with the first page, and what is cached under a
pattern is whatever the peers answered, even if the subscription is gone by then.
-/

namespace Bib.P2p.Catalogs

open Bib.Lib List KeyMap

/-- `domain.CatalogEntry`: the fields that are read. -/
structure CatalogEntry where
  (topicID topicName hash : String)
  deriving DecidableEq

/-! ### One exchange -/

structure Catalog where
  entries : List CatalogEntry
  version : UInt64

structure SyncStateResponse where
  (missingHashes wantedHashes : List String)
  catalogVersion : UInt64

/-- A `map[string]bool` that is true for the hashes of a list. -/
def hashMap (hashes : List String) : KeyMap String Bool :=
  hashes.foldl (fun found hash => found.set hash true) .empty

def handleSyncState (catalog : Catalog) (hashes : List String) : SyncStateResponse :=
  let theirHashes := hashMap hashes
  let ourHashes := hashMap (catalog.entries.map CatalogEntry.hash)
  { missingHashes := (catalog.entries.map CatalogEntry.hash).filter fun hash => !(theirHashes.get? hash).getD false
    wantedHashes := hashes.filter fun hash => !(ourHashes.get? hash).getD false
    catalogVersion := catalog.version }

theorem getD_hashMap (hashes : List String) (hash : String) :
    ((hashMap hashes).get? hash).getD false = decide (hash ∈ hashes) := by
  induction hashes using reverseRecOn with
  | nil => rfl
  | append_singleton hashes last ih =>
    have hset : hashMap (hashes ++ [last]) = (hashMap hashes).set last true := by simp [hashMap]
    rw [hset, get?_set]
    split
    next heq => simp [heq]
    next hne => simpa [hne] using ih

/-- **One exchange makes the catalogs equal**: each side is told exactly what it lacks. -/
theorem exchange_completes (catalog : Catalog) (hashes : List String) :
    let ours := catalog.entries.map CatalogEntry.hash
    let response := handleSyncState catalog hashes
    ∀ hash, (hash ∈ response.missingHashes ↔ hash ∈ ours ∧ hash ∉ hashes) ∧
      (hash ∈ response.wantedHashes ↔ hash ∈ hashes ∧ hash ∉ ours) ∧
      (hash ∈ hashes ++ response.missingHashes ↔ hash ∈ hashes ∨ hash ∈ ours) ∧
      (hash ∈ ours ++ response.wantedHashes ↔ hash ∈ hashes ∨ hash ∈ ours) := by
  intro ours response hash
  have hm : hash ∈ response.missingHashes ↔ hash ∈ ours ∧ hash ∉ hashes := by
    simp only [response, handleSyncState, getD_hashMap, mem_filter, ours, Bool.not_eq_true', decide_eq_false_iff_not]
  have hw : hash ∈ response.wantedHashes ↔ hash ∈ hashes ∧ hash ∉ ours := by
    simp only [response, handleSyncState, getD_hashMap, mem_filter, ours, Bool.not_eq_true', decide_eq_false_iff_not]
  refine ⟨hm, hw, ?_, ?_⟩
  · rw [mem_append]
    tauto
  · rw [mem_append]
    tauto

/-! ### Pages of a query -/

/-- An entry is kept unless its hash was seen; what was seen is what is kept. -/
def addEntry (allEntries : List CatalogEntry) (entry : CatalogEntry) : List CatalogEntry :=
  if entry.hash ∈ allEntries.map CatalogEntry.hash then allEntries else allEntries ++ [entry]

/-- The loop over the answers of the peers. -/
def collect (answers : List (Except String (List CatalogEntry))) : List CatalogEntry :=
  answers.foldl (fun allEntries answer =>
    match answer with
    | .error _ => allEntries
    | .ok entries => entries.foldl addEntry allEntries) []

/-- The entries and the total of the result. -/
def page (allEntries : List CatalogEntry) (offset limit : Int) : List CatalogEntry × Nat :=
  let entries := if 0 < offset ∧ offset < allEntries.length then allEntries.drop offset.toNat else allEntries
  (if 0 < limit ∧ limit < entries.length then entries.take limit.toNat else entries, allEntries.length)

inductive Handler
  | proxy
  | selective

/-- `ProxyHandler.forwardQuery` and `SelectiveHandler.Query`, from the answers of the peers in their order. -/
def Handler.query (answers : List (Except String (List CatalogEntry))) (offset limit : Int) :
    Handler → List CatalogEntry × Nat
  | proxy => if answers.length = 0 then ([], 0) else page (collect answers) offset limit
  | selective => page (collect answers) offset limit

theorem foldl_addEntry_eq_nil_iff {entries all : List CatalogEntry} :
    entries.foldl addEntry all = [] ↔ all = [] ∧ entries = [] := by
  induction entries generalizing all with
  | nil => simp
  | cons entry entries ih =>
    rw [foldl_cons, ih, addEntry]
    split
    next hmem => simp [ne_nil_of_mem (mem_map.mp hmem).choose_spec.1]
    · simp

theorem collect_eq_nil_iff {answers : List (Except String (List CatalogEntry))} :
    collect answers = [] ↔ ∀ entries, .ok entries ∈ answers → entries = [] := by
  have h : ∀ all, answers.foldl (fun allEntries answer =>
      match answer with
      | .error _ => allEntries
      | .ok entries => entries.foldl addEntry allEntries) all = [] ↔
        all = [] ∧ ∀ entries, .ok entries ∈ answers → entries = [] := by
    induction answers with
    | nil => simp
    | cons answer answers ih =>
      intro all
      rw [foldl_cons, ih]
      cases answer with
      | error text => simp
      | ok entries => simp [foldl_addEntry_eq_nil_iff, and_assoc]
  exact (h []).trans (and_iff_right rfl)

theorem page_eq_nil_iff {allEntries : List CatalogEntry} {offset limit : Int} :
    (page allEntries offset limit).1 = [] ↔ allEntries = [] := by
  rw [← length_eq_zero_iff, ← length_eq_zero_iff, page]
  split_ifs <;> simp only [length_take, length_drop] <;> omega

theorem query_entries (handler : Handler) (answers : List (Except String (List CatalogEntry))) (offset limit : Int) :
    (handler.query answers offset limit).1 = (page (collect answers) offset limit).1 := by
  cases handler with
  | selective => rfl
  | proxy =>
    rw [Handler.query]
    split
    next hlen =>
      rw [length_eq_zero_iff.mp hlen]
      exact (page_eq_nil_iff.mpr rfl).symm
    · rfl

/-- **Paging through a query ends, with all entries, only if there are none**: an offset behind the last entry
is ignored. -/
theorem paging_ends_iff (handler : Handler) (answers : List (Except String (List CatalogEntry))) (limit : Int) :
    (∃ n, (range n).flatMap (fun (k : Nat) => (handler.query answers (k * limit) limit).1) = collect answers ∧
        (handler.query answers (n * limit) limit).1 = []) ↔
      ∀ entries, .ok entries ∈ answers → entries = [] := by
  simp only [query_entries, page_eq_nil_iff, ← collect_eq_nil_iff]
  constructor
  · rintro ⟨-, -, hnil⟩
    exact hnil
  · exact fun hnil => ⟨0, hnil.symm, hnil⟩

/-- One entry, asked for one at a time: no page is empty. -/
theorem last_page_repeats :
    ¬ ∃ n : Nat, (Handler.proxy.query [.ok [⟨"t", "topic", "h"⟩]] (n * 1) 1).1 = [] := by
  rintro ⟨n, hnil⟩
  rw [query_entries, page_eq_nil_iff] at hnil
  cases hnil

/-! ### The cache of the selective mode -/

structure SelectiveHandler where
  subscriptions : List String
  catalog : KeyMap String (List CatalogEntry)
  /-- What calls of `SyncSubscription` have queried and not stored yet. -/
  queried : List (String × List CatalogEntry)

inductive Event
  | subscribe (pattern : String)
  | unsubscribe (pattern : String)
  /-- `SyncSubscription` up to the lock. -/
  | query (pattern : String) (answers : List (Except String (List CatalogEntry)))
  /-- The rest of one of its calls. -/
  | store (i : Nat)

def step (h : SelectiveHandler) : Event → SelectiveHandler
  | .subscribe pattern =>
    if pattern ∈ h.subscriptions then h else { h with subscriptions := h.subscriptions ++ [pattern] }
  | .unsubscribe pattern =>
    { h with subscriptions := h.subscriptions.erase pattern, catalog := h.catalog.delete pattern }
  | .query pattern answers =>
    { h with queried := h.queried ++ [(pattern, (Handler.selective.query answers 0 0).1)] }
  | .store i =>
    match h.queried[i]? with
    | none => h
    | some (pattern, entries) =>
      { h with catalog := h.catalog.set pattern entries, queried := h.queried.eraseIdx i }

/-- The meaning of a pattern: `*` is any sequence and `?` one character. -/
def matchesPattern : List Char → List Char → Bool
  | [], text => text.isEmpty
  | '*' :: pattern, text => text.tails.any (matchesPattern pattern)
  | c :: pattern, d :: text => (c == '?' || c == d) && matchesPattern pattern text
  | _ :: _, [] => false

/-- All entries are of a topic whose name or id matches the pattern. -/
def AllMatch (pattern : String) (entries : List CatalogEntry) : Prop :=
  ∀ entry ∈ entries, matchesPattern pattern.toList entry.topicName.toList = true ∨
    matchesPattern pattern.toList entry.topicID.toList = true

def Mirrors (h : SelectiveHandler) : Prop :=
  ∀ pattern entries, h.catalog.get? pattern = some entries →
    pattern ∈ h.subscriptions ∧ AllMatch pattern entries

/-- What is stored belongs to a subscription and matches it. -/
def StoresMatching (h : SelectiveHandler) : Event → Prop
  | .store i => ∀ p ∈ h.queried[i]?, p.1 ∈ h.subscriptions ∧ AllMatch p.1 p.2
  | _ => True

theorem mirrors_step_iff {h : SelectiveHandler} (hm : Mirrors h) (event : Event) :
    Mirrors (step h event) ↔ StoresMatching h event := by
  cases event with
  | subscribe pattern =>
    refine iff_of_true ?_ trivial
    rw [step]
    split
    · exact hm
    · exact fun key entries hg => (hm key entries hg).imp_left (mem_append_left _)
  | unsubscribe pattern =>
    refine iff_of_true (fun key entries hg => ?_) trivial
    obtain ⟨hne, hg⟩ := get?_delete_eq_some_iff.mp hg
    exact (hm key entries hg).imp_left (mem_erase_of_ne hne).mpr
  | query pattern answers => exact iff_of_true hm trivial
  | store i =>
    simp only [step, StoresMatching]
    split
    next hnone => exact iff_of_true hm (by simp [hnone])
    next pattern entries hsome =>
      simp only [hsome, Option.mem_some_iff, forall_eq']
      constructor
      · exact fun hall => hall pattern entries ((get?_set _ _ _ _).trans (if_pos rfl))
      · intro hok key entries' hg
        rcases get?_set_eq_some_iff.mp hg with ⟨rfl, rfl⟩ | ⟨-, hg⟩
        · exact hok
        · exact hm key entries' hg

theorem mem_foldl_addEntry {entry : CatalogEntry} {entries all : List CatalogEntry}
    (hmem : entry ∈ entries.foldl addEntry all) : entry ∈ all ∨ entry ∈ entries := by
  induction entries generalizing all with
  | nil => exact .inl hmem
  | cons first entries ih =>
    rcases ih hmem with hall | hrest
    · rw [addEntry] at hall
      split at hall
      · exact .inl hall
      · simpa [or_assoc] using Or.inl (b := entry ∈ entries) (mem_append.mp hall)
    · exact .inr (mem_cons_of_mem _ hrest)

theorem exists_answer_of_mem_collect {answers : List (Except String (List CatalogEntry))}
    {entry : CatalogEntry} (hmem : entry ∈ collect answers) :
    ∃ entries, .ok entries ∈ answers ∧ entry ∈ entries := by
  refine foldlRecOn (motive := fun all => entry ∈ all → ∃ entries, .ok entries ∈ answers ∧ entry ∈ entries)
    answers _ (fun hnil => absurd hnil not_mem_nil) (fun all ih answer ha hall => ?_) hmem
  cases answer with
  | error text => exact ih hall
  | ok entries =>
    rcases mem_foldl_addEntry hall with hall | hentry
    · exact ih hall
    · exact ⟨entries, ha, hentry⟩

/-- A subscription is queried for and the peers answer with matching entries only, and no pattern is
unsubscribed between its query and its write. -/
def Undisturbed (h : SelectiveHandler) : Event → Prop
  | .query pattern answers =>
    pattern ∈ h.subscriptions ∧ ∀ entries, .ok entries ∈ answers → AllMatch pattern entries
  | .unsubscribe pattern => ∀ p ∈ h.queried, p.1 ≠ pattern
  | _ => True

/-- What is on its way to the cache belongs to a subscription and matches it. -/
def QueriedMatch (h : SelectiveHandler) : Prop :=
  ∀ p ∈ h.queried, p.1 ∈ h.subscriptions ∧ AllMatch p.1 p.2

theorem queriedMatch_step {h : SelectiveHandler} {event : Event} (hok : Undisturbed h event)
    (hq : QueriedMatch h) : QueriedMatch (step h event) := by
  cases event with
  | subscribe pattern =>
    rw [step]
    split
    · exact hq
    · exact fun p hp => (hq p hp).imp_left (mem_append_left _)
  | unsubscribe pattern => exact fun p hp => (hq p hp).imp_left (mem_erase_of_ne (hok p hp)).mpr
  | query pattern answers =>
    intro p hp
    rcases mem_append.mp hp with hp | hp
    · exact hq p hp
    · rw [mem_singleton.mp hp]
      refine ⟨hok.1, fun entry hentry => ?_⟩
      have hall : entry ∈ collect answers := by simpa [Handler.query, page] using hentry
      obtain ⟨entries, ha, hmem⟩ := exists_answer_of_mem_collect hall
      exact hok.2 entries ha entry hmem
  | store i =>
    simp only [step]
    split
    · exact hq
    · exact fun p hp => hq p (mem_of_mem_eraseIdx hp)

/-- The condition holds in every undisturbed run. -/
theorem storesMatching_of_undisturbed {h : SelectiveHandler} (hq : QueriedMatch h) {events : List Event}
    (hok : Run.AllSteps step Undisturbed h events) : Run.AllSteps step StoresMatching h events := by
  refine (Run.allSteps_and_invariant (fun _ _ => queriedMatch_step) hq hok).imp fun h event hboth => ?_
  cases event with
  | store i => exact fun p hp => hboth.1 p (mem_of_getElem? hp)
  | _ => trivial

/-- **The cache mirrors the subscriptions in a run exactly if every answer that is stored belongs to a
subscription at that time, and matches it.** -/
theorem cache_mirrors_iff (subscriptions : List String) (events : List Event) :
    let start : SelectiveHandler := ⟨subscriptions, .empty, []⟩
    (∀ done, done <+: events → Mirrors (done.foldl step start)) ↔
      Run.AllSteps step StoresMatching start events :=
  Run.forall_prefix_iff_allSteps (fun _ => True) Mirrors (fun _ _ _ => trivial)
    (fun _ event _ hm => mirrors_step_iff hm event) trivial (fun _ _ hg => by cases hg)

/-- An entry of another topic is cached under the pattern. -/
theorem other_topic_cached :
    ¬ Mirrors ([Event.subscribe "weather", .query "weather" [.ok [⟨"t", "traffic", "h"⟩]], .store 0].foldl step
      ⟨[], .empty, []⟩) := by
  intro hm
  have hall := (hm "weather" [⟨"t", "traffic", "h"⟩] (by decide)).2
  exact absurd (hall _ mem_cons_self) (by decide)

end Bib.P2p.Catalogs
