import Mathlib.Algebra.BigOperators.Group.Finset.Basic
import Mathlib.Algebra.Order.BigOperators.Group.Finset
import Mathlib.Logic.Relation

/-!
# Bib.Lib.Dfs

**A depth-first search for cycles with two sets of marks**, `visited` and `recStack`, over a graph given by the
successors of each node; a node without an entry is a leaf. The search does not take a leaf from `recStack`
again, so it also stops when it comes to a leaf for the second time.

`Inv` is what holds between two steps: the inner nodes of `recStack` are the path, and what is visited and not
on the path is accessible.
-/

namespace Bib.Lib.Dfs

open List
open Finset (card_le_card mem_erase mem_insert mem_insert_self mem_sdiff sum_insert)

variable {K : Type}

theorem not_rel_of_acc {r : K → K → Prop} {x : K} (h : Acc r x) : ¬ r x x := by
  induction h with
  | intro x _ ih =>
    intro hx
    exact ih x hx hx

variable [DecidableEq K]

structure Marks (K : Type) where
  (visited recStack : Finset K)

/-- The loop over the successors of a node. -/
def scan (visit : K → Marks K → Option (Bool × Marks K)) : List K → Marks K → Option (Bool × Marks K)
  | [], m => some (false, m)
  | d :: ds, m =>
    if d ∉ m.visited then
      match visit d m with
      | some (false, m) => scan visit ds m
      | stopped => stopped
    else if d ∈ m.recStack then some (true, m)
    else scan visit ds m

/-- The visit of a node; `none` when the fuel has run out. -/
def hasCycle (next : K → Option (List K)) : Nat → K → Marks K → Option (Bool × Marks K)
  | 0, _, _ => none
  | fuel + 1, x, m =>
    let m : Marks K := { visited := insert x m.visited, recStack := insert x m.recStack }
    match next x with
    | none => some (false, m)
    | some deps =>
      match scan (hasCycle next fuel) deps m with
      | some (false, m) => some (false, { m with recStack := m.recStack.erase x })
      | stopped => stopped

def search (next : K → Option (List K)) (fuel : Nat) : List K → Marks K → Option Bool
  | [], _ => some false
  | x :: roots, m =>
    if x ∈ m.visited then search next fuel roots m
    else
      match hasCycle next fuel x m with
      | some (false, m) => search next fuel roots m
      | some (true, _) => some true
      | none => none

/-! ### The graph -/

variable (next : K → Option (List K))

def deps (x : K) : List K := (next x).getD []

def Dep (d x : K) : Prop := d ∈ deps next x

/-- How often the nodes of a set name `z`. -/
def named (nodes : Finset K) (z : K) : Nat := ∑ y ∈ nodes, (deps next y).count z

/-- The graph has a cycle, or the nodes name a leaf twice. -/
def Bad (nodes : Finset K) : Prop :=
  (∃ x, Relation.TransGen (Dep next) x x) ∨ ∃ z, next z = none ∧ 2 ≤ named next nodes z

/-- What holds between two steps, with the nodes on the path and the names that are still to be scanned. -/
structure Inv (m : Marks K) (path : List K) (pending : List K) : Prop where
  stack : ∀ x, next x ≠ none → (x ∈ m.recStack ↔ x ∈ path)
  leaf : ∀ x, next x = none → (x ∈ m.recStack ↔ x ∈ m.visited)
  visited : ∀ x ∈ path, x ∈ m.visited
  acc : ∀ x ∈ m.visited, x ∉ path → Acc (Dep next) x
  names : ∀ z, next z = none →
    named next m.visited z = (if z ∈ m.visited then 1 else 0) + pending.count z

/-- How a visit or a scan ends, after which `todo` has been seen. -/
inductive Outcome (nodes : Finset K) (m : Marks K) (path pending todo : List K) :
    Option (Bool × Marks K) → Prop
  | found (m' : Marks K) : Bad next nodes → Outcome nodes m path pending todo (some (true, m'))
  | done (m' : Marks K) : Inv next m' path pending → m.visited ⊆ m'.visited → m'.visited ⊆ nodes →
      (∀ d ∈ todo, d ∈ m'.visited ∧ d ∉ path) → Outcome nodes m path pending todo (some (false, m'))

variable {next} {nodes : Finset K} {m : Marks K} {path pending ds : List K} {x : K}

theorem Inv.drop (h : Inv next m path (x :: pending)) (hx : next x ≠ none) : Inv next m path pending := by
  refine { h with names := fun z hz => ?_ }
  rw [h.names z hz, count_cons_of_ne fun heq : x = z => hx (heq ▸ hz)]

theorem Inv.leaf_visited (h : Inv next m path (x :: pending)) (hx : next x = none) (hnew : x ∉ m.visited) :
    Inv next ⟨insert x m.visited, insert x m.recStack⟩ path pending where
  stack y hy := by
    have hne : y ≠ x := fun heq => hy (heq ▸ hx)
    rw [mem_insert, or_iff_right hne]
    exact h.stack y hy
  leaf y hy := by rw [mem_insert, mem_insert, h.leaf y hy]
  visited y hy := Finset.mem_insert_of_mem (h.visited y hy)
  acc y hy hp := by
    rcases mem_insert.mp hy with rfl | hold
    · refine ⟨y, fun d hd => ?_⟩
      rw [Dep, deps, hx] at hd
      cases hd
    · exact h.acc y hold hp
  names z hz := by
    have hde : deps next x = [] := by rw [deps, hx]; rfl
    have hold := h.names z hz
    rw [named, sum_insert hnew, hde, count_nil, Nat.zero_add, ← named, hold]
    by_cases hzx : z = x
    · rw [hzx, if_neg hnew, if_pos (mem_insert_self x _), count_cons_self, Nat.zero_add, Nat.add_comm]
    · simp [count_cons_of_ne (Ne.symm hzx), hzx]

theorem Inv.push (h : Inv next m path (x :: pending)) (hx : next x = some ds) (hnew : x ∉ m.visited) :
    Inv next ⟨insert x m.visited, insert x m.recStack⟩ (x :: path) (ds ++ pending) where
  stack y hy := by rw [mem_insert, mem_cons, h.stack y hy]
  leaf y hy := by rw [mem_insert, mem_insert, h.leaf y hy]
  visited y hy := by
    rcases mem_cons.mp hy with rfl | hold
    · exact mem_insert_self y _
    · exact Finset.mem_insert_of_mem (h.visited y hold)
  acc y hy hp := by
    rw [mem_cons, not_or] at hp
    exact h.acc y ((mem_insert.mp hy).resolve_left hp.1) hp.2
  names z hz := by
    have hne : z ≠ x := fun heq => by rw [heq, hx] at hz; cases hz
    have hd : deps next x = ds := by rw [deps, hx]; rfl
    have hold := h.names z hz
    rw [count_cons_of_ne hne.symm] at hold
    rw [named, sum_insert hnew, hd, ← named, count_append]
    simp only [mem_insert, hne, false_or]
    omega

theorem Inv.pop (h : Inv next m (x :: path) pending) (hx : next x = some ds) (hp : x ∉ path)
    (hds : ∀ d ∈ ds, d ∈ m.visited ∧ d ∉ x :: path) :
    Inv next { m with recStack := m.recStack.erase x } path pending where
  stack y hy := by
    rw [mem_erase, h.stack y hy, mem_cons]
    constructor
    · intro hmem
      exact hmem.2.resolve_left hmem.1
    · intro hmem
      exact ⟨fun heq => hp (heq ▸ hmem), .inr hmem⟩
  leaf y hy := by
    have hne : y ≠ x := fun heq => by rw [heq, hx] at hy; cases hy
    rw [mem_erase, and_iff_right hne]
    exact h.leaf y hy
  visited y hy := h.visited y (mem_cons_of_mem x hy)
  acc y hy ho := by
    by_cases hyx : y = x
    · -- everything that the node names is accessible
      refine ⟨y, fun d hd => ?_⟩
      rw [Dep, deps, hyx, hx] at hd
      exact h.acc d (hds d hd).1 (hds d hd).2
    · exact h.acc y hy fun hmem => (mem_cons.mp hmem).elim hyx ho
  names := h.names

/-- A visit with enough fuel, in a state in which `x` is the next name to scan. -/
def Visits (next : K → Option (List K)) (nodes : Finset K) (fuel : Nat) : Prop :=
  ∀ x m path pending, x ∈ nodes → x ∉ m.visited → Inv next m path (x :: pending) → m.visited ⊆ nodes →
    (nodes \ m.visited).card ≤ fuel → (∀ y ∈ path, Relation.ReflTransGen (Dep next) x y) →
    Outcome next nodes m path pending [x] (hasCycle next fuel x m)

theorem Outcome.cons {m' : Marks K} {d : K} {r : Option (Bool × Marks K)}
    (h : Outcome next nodes m' path pending ds r) (hs : m.visited ⊆ m'.visited) (hd : d ∈ m'.visited)
    (hp : d ∉ path) : Outcome next nodes m path pending (d :: ds) r := by
  cases h with
  | found m'' hb => exact .found m'' hb
  | done m'' hi hs' hm hse =>
    refine .done m'' hi (hs.trans hs') hm fun e he => ?_
    rcases mem_cons.mp he with rfl | he
    · exact ⟨hs' hd, hp⟩
    · exact hse e he

theorem scan_outcome (cur : K) {fuel : Nat} (hvi : Visits next nodes fuel) (hno : ∀ d, Dep next d cur → d ∈ nodes)
    (hds : ∀ d ∈ ds, Dep next d cur) (h : Inv next m path (ds ++ pending)) (hm : m.visited ⊆ nodes)
    (hf : (nodes \ m.visited).card ≤ fuel) (hp : ∀ y ∈ path, Relation.ReflTransGen (Dep next) cur y) :
    Outcome next nodes m path pending ds (scan (hasCycle next fuel) ds m) := by
  induction ds generalizing m with
  | nil => exact .done m h Finset.Subset.rfl hm fun d hd => by cases hd
  | cons d ds ih =>
    have hd : Dep next d cur := hds d mem_cons_self
    have hrest : ∀ e ∈ ds, Dep next e cur := fun e he => hds e (mem_cons_of_mem d he)
    rw [scan]
    by_cases hv : d ∈ m.visited
    · rw [if_neg (not_not.mpr hv)]
      by_cases hstack : d ∈ m.recStack
      · rw [if_pos hstack]
        refine .found m ?_
        by_cases hl : next d = none
        · -- the leaf has been named before
          have hn := h.names d hl
          rw [if_pos hv, cons_append, count_cons_self] at hn
          exact .inr ⟨d, hl, le_trans (b := named next _ d) (by omega) (Finset.sum_le_sum_of_subset hm)⟩
        · exact .inl ⟨d, .head' hd (hp d ((h.stack d hl).mp hstack))⟩
      · rw [if_neg hstack]
        have hi : next d ≠ none := fun hl => hstack ((h.leaf d hl).mpr hv)
        exact (ih hrest (h.drop hi) hm hf).cons Finset.Subset.rfl hv
          fun hmem => hstack ((h.stack d hi).mpr hmem)
    · rw [if_pos hv]
      have hcall := hvi d m path (ds ++ pending) (hno d hd) hv h hm hf
        fun y hy => .head hd (hp y hy)
      cases hr : hasCycle next fuel d m with
      | none => rw [hr] at hcall; cases hcall
      | some result =>
        rw [hr] at hcall
        cases hcall with
        | found m' hb => exact .found m' hb
        | done m' hin hs hm' hse =>
          have hle : (nodes \ m'.visited).card ≤ fuel :=
            (card_le_card (Finset.sdiff_subset_sdiff Finset.Subset.rfl hs)).trans hf
          have hse := hse d (mem_singleton.mpr rfl)
          exact (ih hrest hin hm' hle).cons hs hse.1 hse.2

theorem visits (hn : ∀ d x, Dep next d x → d ∈ nodes) (fuel : Nat) : Visits next nodes fuel := by
  induction fuel with
  | zero =>
    intro x m path pending hx hnew _ _ hf
    have hmem : x ∈ nodes \ m.visited := mem_sdiff.mpr ⟨hx, hnew⟩
    rw [Finset.card_eq_zero.mp (Nat.le_zero.mp hf)] at hmem
    cases hmem
  | succ fuel ih =>
    intro x m path pending hx hnew h hm hf hp
    have hma : insert x m.visited ⊆ nodes := Finset.insert_subset hx hm
    have ho : x ∉ path := fun hmem => hnew (h.visited x hmem)
    have hl : (nodes \ insert x m.visited).card ≤ fuel := by
      rw [Finset.sdiff_insert, Finset.card_erase_of_mem (mem_sdiff.mpr ⟨hx, hnew⟩)]
      omega
    rw [hasCycle]
    cases hne : next x with
    | none =>
      refine .done _ (h.leaf_visited hne hnew) (Finset.subset_insert x _) hma fun d hd => ?_
      cases mem_singleton.mp hd
      exact ⟨mem_insert_self x _, ho⟩
    | some ds =>
      have hsc := scan_outcome x ih (fun d hd => hn d x hd)
        (fun d hd => by rw [Dep, deps, hne]; exact hd) (h.push hne hnew) hma hl
        fun y hy => (mem_cons.mp hy).elim (fun heq => heq ▸ .refl) (hp y)
      dsimp only
      cases hr : scan (hasCycle next fuel) ds ⟨insert x m.visited, insert x m.recStack⟩ with
      | none => rw [hr] at hsc; cases hsc
      | some result =>
        rw [hr] at hsc
        cases hsc with
        | found m' hb => exact .found m' hb
        | done m' hi hs hm' hse =>
          refine .done _ (hi.pop hne ho hse) ((Finset.subset_insert x _).trans hs) hm' fun d hd => ?_
          cases mem_singleton.mp hd
          exact ⟨hs (mem_insert_self x _), ho⟩

variable {fuel : Nat} {roots : List K}

theorem search_outcome (hn : ∀ d x, Dep next d x → d ∈ nodes)
    (hr : ∀ x ∈ roots, x ∈ nodes ∧ next x ≠ none) (h : Inv next m [] []) (hm : m.visited ⊆ nodes)
    (hfu : (nodes \ m.visited).card ≤ fuel) :
    search next fuel roots m = some true ∧ Bad next nodes ∨ search next fuel roots m = some false ∧
        ∃ m', Inv next m' [] [] ∧ (∀ x ∈ roots, x ∈ m'.visited) ∧ m.visited ⊆ m'.visited ∧ m'.visited ⊆ nodes := by
  induction roots generalizing m with
  | nil => exact .inr ⟨rfl, m, h, fun x hx => (not_mem_nil hx).elim, Finset.Subset.rfl, hm⟩
  | cons x roots ih =>
    obtain ⟨hx, hi⟩ := hr x mem_cons_self
    have hrest := fun y hy => hr y (mem_cons_of_mem x hy)
    rw [search]
    by_cases hv : x ∈ m.visited
    · rw [if_pos hv]
      rcases ih hrest h hm hfu with hf | ⟨hd, m', hin, hall, hsu, hm'⟩
      · exact .inl hf
      · exact .inr ⟨hd, m', hin, forall_mem_cons.mpr ⟨hsu hv, hall⟩, hsu, hm'⟩
    · rw [if_neg hv]
      have hs : Inv next m [] [x] := by
        refine { h with names := fun z hz => ?_ }
        rw [h.names z hz, count_cons_of_ne fun heq : x = z => hi (heq ▸ hz)]
      have hcall := visits hn fuel x m [] [] hx hv hs hm hfu fun y hy => by cases hy
      cases hru : hasCycle next fuel x m with
      | none => rw [hru] at hcall; cases hcall
      | some result =>
        rw [hru] at hcall
        cases hcall with
        | found m' hb => exact .inl ⟨rfl, hb⟩
        | done m' hin hsu hm' hse =>
          have hl := (card_le_card (Finset.sdiff_subset_sdiff Finset.Subset.rfl hsu)).trans hfu
          have hmem := (hse x (mem_singleton.mpr rfl)).1
          rcases ih hrest hin hm' hl with hf | ⟨hd, m'', hin', hall, hsu', hm''⟩
          · exact .inl hf
          · exact .inr ⟨hd, m'', hin', forall_mem_cons.mpr ⟨hsu' hmem, hall⟩, hsu.trans hsu', hm''⟩

/-- **The search from all inner nodes, with fuel for all nodes, finds exactly a cycle or a leaf that is named
twice**, and otherwise every inner node is accessible. -/
theorem search_spec (hno : ∀ d x, Dep next d x → d ∈ nodes)
    (hr : ∀ x, next x ≠ none ↔ x ∈ roots) (hall : ∀ x ∈ roots, x ∈ nodes) (hfu : nodes.card ≤ fuel) :
    search next fuel roots ⟨∅, ∅⟩ = some true ∧ Bad next nodes ∨
      search next fuel roots ⟨∅, ∅⟩ = some false ∧ ¬ Bad next nodes ∧ ∀ x ∈ roots, Acc (Dep next) x := by
  have hs : Inv next ⟨∅, ∅⟩ [] [] := by
    constructor <;> simp [named]
  have hl : (nodes \ ∅).card ≤ fuel := by rwa [Finset.sdiff_empty]
  rcases search_outcome hno (fun x hx => ⟨hall x hx, (hr x).mpr hx⟩) hs (Finset.empty_subset nodes)
    hl with hf | ⟨hdo, m, hin, hse, -, hm⟩
  · exact .inl hf
  · have ha : ∀ x ∈ roots, Acc (Dep next) x := fun x hx => hin.acc x (hse x hx) not_mem_nil
    refine .inr ⟨hdo, ?_, ha⟩
    have hi : ∀ {d x}, Dep next d x → x ∈ roots := by
      intro d x hd
      refine (hr x).mp fun hnone => ?_
      rw [Dep, deps, hnone] at hd
      cases hd
    intro hb
    rcases hb with ⟨x, hc⟩ | ⟨z, hz, ht⟩
    · obtain ⟨y, -, hlast⟩ := Relation.TransGen.tail'_iff.mp hc
      exact not_rel_of_acc (ha x (hi hlast)).transGen hc
    · -- what is not visited names nothing
      have hsa : named next m.visited z = named next nodes z := by
        refine Finset.sum_subset hm fun y _ hy => ?_
        have hnone : next y = none := by
          by_contra hsome
          exact hy (hse y ((hr y).mp hsome))
        rw [deps, hnone]
        rfl
      have hn := hin.names z hz
      rw [count_nil] at hn
      split at hn <;> omega

end Bib.Lib.Dfs
