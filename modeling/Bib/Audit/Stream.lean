import Bib.Lib.Run
import Bib.Lib.Table
import Mathlib.Data.List.DropRight

/-!
# Bib.Audit.Stream

**Subscriptions to audit entries** (`Streamer` in `storage/audit/stream.go`). A subscription is a channel in a
table under an id that the caller chooses. The function that ends it closes whatever channel the table has
under the id by then. Subscriptions are numbered, and a channel has the number of its subscription; the
buffer of recent entries is a part of its own.
-/

namespace Bib.Audit.Stream

open Bib.Lib Bib.Lib.KeyMap List

structure Streamer where
  subscribers : KeyMap String Nat
  closed : Bool
  ids : List String
  /-- The channels closed so far, by the function of a subscription or by `Close`. -/
  closings : List (Nat × Option Nat)

def newStreamer : Streamer := { subscribers := .empty, closed := false, ids := [], closings := [] }

def Streamer.publish (s : Streamer) : List Nat := if s.closed then [] else s.subscribers.rows.map Prod.snd

/-- The calls that change the table; `unsubscribe` is one of the function that a subscription has returned. -/
inductive Event
  | subscribe (id : String)
  | unsubscribe (subscription : Nat)
  | close

def step (s : Streamer) : Event → Streamer
  | .subscribe id => { s with subscribers := s.subscribers.set id s.ids.length, ids := s.ids ++ [id] }
  | .unsubscribe k =>
    match s.ids[k]? with
    | none => s
    | some id =>
      match s.subscribers.get? id with
      | none => s
      | some existingCh =>
        { s with subscribers := s.subscribers.delete id, closings := s.closings ++ [(existingCh, some k)] }
  | .close =>
    if s.closed then s
    else { s with closed := true, subscribers := .empty
                  closings := s.closings ++ s.subscribers.rows.map fun p => (p.2, none) }

/-- No channel is closed twice or sent to after closing, and only its own function or `Close` closes it. -/
structure Independent (s : Streamer) : Prop where
  once : (s.closings.map Prod.fst).Nodup
  unsent : ∀ p ∈ s.closings, p.1 ∉ s.publish
  own : ∀ p ∈ s.closings, ∀ k ∈ p.2, p.1 = k

/-- A function that is called finds its own channel under its id, or none. -/
def OwnChannel (s : Streamer) : Event → Prop
  | .unsubscribe k => ∀ id ∈ s.ids[k]?, ∀ existingCh ∈ s.subscribers.get? id, existingCh = k
  | _ => True

/-- The table has channels that are not closed, each under the id of its subscription. -/
structure Inv (s : Streamer) : Prop where
  once : (s.closings.map Prod.fst).Nodup
  owned : ∀ id channel, s.subscribers.get? id = some channel → s.ids[channel]? = some id
  gone : ∀ p ∈ s.closings, p.1 < s.ids.length ∧ ∀ id, s.subscribers.get? id ≠ some p.1

variable {s : Streamer}

theorem Inv.lt (h : Inv s) {id : String} {channel : Nat} (hg : s.subscribers.get? id = some channel) :
    channel < s.ids.length := (List.getElem?_eq_some_iff.mp (h.owned id channel hg)).1

theorem Inv.unsent (h : Inv s) : ∀ p ∈ s.closings, p.1 ∉ s.publish := by
  intro p hp hmem
  rw [Streamer.publish] at hmem
  split at hmem
  · cases hmem
  · obtain ⟨row, hrow, heq⟩ := mem_map.mp hmem
    exact (h.gone p hp).2 row.1 (get?_eq_some_iff.mpr (heq ▸ hrow))

/-- The table has no channel twice. -/
theorem Inv.inj (h : Inv s) {id id' : String} {channel : Nat} (hg : s.subscribers.get? id = some channel)
    (hg' : s.subscribers.get? id' = some channel) : id = id' :=
  Option.some.inj ((h.owned id channel hg).symm.trans (h.owned id' channel hg'))

theorem Inv.once_append (h : Inv s) {closings : List (Nat × Option Nat)} (hn : (closings.map Prod.fst).Nodup)
    (hg : ∀ p ∈ closings, ∃ id, s.subscribers.get? id = some p.1) :
    ((s.closings ++ closings).map Prod.fst).Nodup := by
  rw [map_append, nodup_append]
  refine ⟨h.once, hn, ?_⟩
  intro channel hc channel' hc' heq
  obtain ⟨p, hp, rfl⟩ := mem_map.mp hc
  obtain ⟨p', hp', rfl⟩ := mem_map.mp hc'
  obtain ⟨id, hid⟩ := hg p' hp'
  exact (h.gone p hp).2 id (heq ▸ hid)

theorem Inv.nodup (h : Inv s) : (s.subscribers.rows.map Prod.snd).Nodup := by
  refine pairwise_map.mpr ((pairwise_map.mp s.subscribers.nodup).imp_of_mem fun {p q} hp hq hne heq => ?_)
  exact hne (h.inj (get?_eq_some_iff.mpr hp) (heq ▸ get?_eq_some_iff.mpr hq))

theorem inv_step (h : Inv s) (event : Event) : Inv (step s event) := by
  cases event with
  | subscribe id =>
    refine ⟨h.once, fun id' channel hg => ?_, fun p hp => ⟨?_, fun id' hg => ?_⟩⟩
    · rcases get?_set_eq_some_iff.mp hg with ⟨rfl, rfl⟩ | ⟨-, hg⟩
      · exact getElem?_concat_length
      · exact (getElem?_append_left (h.lt hg)).trans (h.owned id' channel hg)
    · exact Nat.lt_of_lt_of_le (h.gone p hp).1 (by simp [step])
    · rcases get?_set_eq_some_iff.mp hg with ⟨-, heq⟩ | ⟨-, hg⟩
      · exact Nat.ne_of_lt (h.gone p hp).1 heq
      · exact (h.gone p hp).2 id' hg
  | unsubscribe k =>
    simp only [step]
    split
    · exact h
    next id _ =>
      split
      · exact h
      next channel hg =>
        refine ⟨h.once_append (by simp) (by simpa using ⟨id, hg⟩), fun id' channel' hg' => ?_, fun p hp => ?_⟩
        · exact h.owned id' channel' (get?_delete_eq_some_iff.mp hg').2
        · rcases mem_append.mp hp with hp | hp
          · exact ⟨(h.gone p hp).1, fun id' hg' => (h.gone p hp).2 id' (get?_delete_eq_some_iff.mp hg').2⟩
          · cases mem_singleton.mp hp
            refine ⟨h.lt hg, fun id' hg' => ?_⟩
            obtain ⟨hne, hg'⟩ := get?_delete_eq_some_iff.mp hg'
            exact hne (h.inj hg' hg)
  | close =>
    rw [step]
    split
    · exact h
    · have hg : ∀ p ∈ s.subscribers.rows.map fun p => (p.2, (none : Option Nat)),
          ∃ id, s.subscribers.get? id = some p.1 := by
        intro p hp
        obtain ⟨row, hrow, rfl⟩ := mem_map.mp hp
        exact ⟨row.1, get?_eq_some_iff.mpr hrow⟩
      refine ⟨h.once_append (by rw [map_map]; exact h.nodup) hg, fun _ _ he => (by cases he), fun p hp => ⟨?_, ?_⟩⟩
      · rcases mem_append.mp hp with hp | hp
        · exact (h.gone p hp).1
        · obtain ⟨id, hid⟩ := hg p hp
          exact h.lt hid
      · exact fun _ he => by cases he

theorem independent_step_iff (h : Inv s) (hs : Independent s) (event : Event) :
    Independent (step s event) ↔ OwnChannel s event := by
  have hi := inv_step h event
  have ho : Independent (step s event) ↔ ∀ p ∈ (step s event).closings, ∀ k ∈ p.2, p.1 = k :=
    ⟨Independent.own, fun hall => ⟨hi.once, hi.unsent, hall⟩⟩
  rw [ho]
  cases event with
  | subscribe id => exact iff_of_true hs.own trivial
  | unsubscribe k =>
    simp only [step, OwnChannel]
    split
    next hk => exact iff_of_true hs.own (by simp [hk])
    next id hid =>
      split
      next hg => exact iff_of_true hs.own (by simp [hid, hg])
      next channel hg =>
        simp only [hid, hg, forall_mem_append, forall_mem_singleton, Option.mem_some_iff, forall_eq']
        exact and_iff_right hs.own
  | close =>
    refine iff_of_true ?_ trivial
    rw [step]
    split
    · exact hs.own
    · refine forall_mem_append.mpr ⟨hs.own, fun p hp k hk => ?_⟩
      obtain ⟨row, -, rfl⟩ := mem_map.mp hp
      cases hk

/-- **Subscriptions are independent in a run exactly if every function that is called finds its own channel
under its id, or none.** -/
theorem subscriptions_independent_iff (events : List Event) :
    (∀ done, done <+: events → Independent (done.foldl step newStreamer)) ↔
      Run.AllSteps step OwnChannel newStreamer events := by
  refine Run.forall_prefix_iff_allSteps Inv Independent (fun _ event h => inv_step h event)
    (fun _ event h hs => independent_step_iff h hs event) ⟨nodup_nil, ?_, ?_⟩ ⟨nodup_nil, ?_, ?_⟩
  · exact fun _ _ hg => by cases hg
  all_goals exact fun _ hp => by cases hp

/-- The function of a first subscription closes the channel of a second one with its id. -/
theorem second_subscription_closed :
    let s := [Event.subscribe "a", .subscribe "a", .unsubscribe 0].foldl step newStreamer
    s.closings = [(1, some 0)] ∧ ¬ Independent s := by
  refine ⟨rfl, fun h => ?_⟩
  exact absurd (h.own (1, some 0) mem_cons_self 0 rfl) (by decide)

/-- **No call panics**: in no run is a channel closed twice, or sent to after it is closed. -/
theorem channels_closed_once (events : List Event) :
    let s := events.foldl step newStreamer
    (s.closings.map Prod.fst).Nodup ∧ ∀ p ∈ s.closings, p.1 ∉ s.publish := by
  have hnew : Inv newStreamer := ⟨nodup_nil, fun _ _ hg => (by cases hg), fun _ hp => by cases hp⟩
  have h := foldlRecOn (motive := Inv) events step hnew fun _ h event _ => inv_step h event
  exact ⟨h.once, h.unsent⟩

/-! ### Recent entries -/

/-- The buffer of an open `Streamer`. -/
structure Buffer (A : Type) where
  buffer : List A
  bufferSize : Int

section Buffer

variable {A : Type}

/-- `NewStreamer`. -/
def newBuffer (bufferSize : Int) : Buffer A :=
  { buffer := [], bufferSize := if bufferSize ≤ 0 then 1000 else bufferSize }

def Buffer.publish (s : Buffer A) (entry : A) : Buffer A :=
  { s with buffer := (if s.bufferSize ≤ s.buffer.length then s.buffer.drop 1 else s.buffer) ++ [entry] }

def Buffer.recentEntries (s : Buffer A) (limit : Int) : List A :=
  let limit := if limit ≤ 0 ∨ s.buffer.length < limit then (s.buffer.length : Int) else limit
  s.buffer.drop (s.buffer.length - limit).toNat

/-- What is in the buffer is the end of what was published. -/
theorem buffer_foldl_publish (size : Nat) (published : List A) :
    published.foldl Buffer.publish ⟨[], size + 1⟩ = ⟨published.rtake (size + 1), size + 1⟩ := by
  induction published using reverseRecOn with
  | nil => simp
  | append_singleton published entry ih =>
    rw [foldl_append, ih, rtake_concat_succ, foldl_cons, foldl_nil, Buffer.publish]
    simp only [rtake, length_drop]
    split
    · rw [drop_drop]
      congr 3
      omega
    · rw [show published.length - (size + 1) = published.length - size by omega]

/-- **`RecentEntries` is a window on what was published**: its last entries, as many as the limit and the size
of the buffer allow. -/
theorem recentEntries_eq_rtake (bufferSize limit : Int) (published : List A) :
    let size := if bufferSize ≤ 0 then 1000 else bufferSize
    (published.foldl Buffer.publish (newBuffer bufferSize)).recentEntries limit =
      published.rtake (min (if limit ≤ 0 then size else limit) size).toNat := by
  intro size
  obtain ⟨k, hk⟩ : ∃ k : Nat, size = k + 1 := ⟨(size - 1).toNat, by grind⟩
  have hb : (newBuffer bufferSize : Buffer A) = ⟨[], k + 1⟩ := by rw [← hk]; rfl
  rw [hb, buffer_foldl_publish, hk, Buffer.recentEntries]
  simp only [rtake, length_drop, drop_drop]
  congr 1
  split <;> split <;> omega

end Buffer

end Bib.Audit.Stream
