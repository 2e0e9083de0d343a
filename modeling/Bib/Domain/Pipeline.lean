import Bib.Lib.Dfs

/-!
# Bib.Domain.Pipeline

**Pipelines of jobs** (`internal/domain/job.go`): `validateDAG`, which looks for cycles in the dependencies, and
`CanRun`. `hasCycle` puts the id of a job that is not in the pipeline on `recStack` and returns without taking
it off, so the search is the one of `Bib.Lib.Dfs` with these ids as its leaves.
-/

namespace Bib.Domain

open Bib.Lib List

inductive JobStatus
  | pending
  | queued
  | running
  | completed
  | failed
  | cancelled
  | waiting
  | retrying
  deriving DecidableEq

structure Job where
  id : String
  status : JobStatus
  dependencies : List String

def Job.canRun (job : Job) (completedJobs : String → Bool) : Bool :=
  if job.status ≠ .pending ∧ job.status ≠ .queued ∧ job.status ≠ .waiting then false
  else job.dependencies.all completedJobs

structure Pipeline where
  jobs : List Job

namespace Pipeline

inductive PipelineError
  | cyclicDependency
  deriving DecidableEq

/-- The job map: the last job with an id stays. -/
def jobMap (p : Pipeline) (id : String) : Option Job := p.jobs.reverse.find? fun job => job.id = id

def ids (p : Pipeline) : List String := p.jobs.map Job.id

/-- All dependencies of all jobs, one list after another. -/
def listed (p : Pipeline) : List String := p.jobs.flatMap Job.dependencies

/-- The dependencies that `hasCycle` runs through. -/
def next (p : Pipeline) (id : String) : Option (List String) := (p.jobMap id).map Job.dependencies

/-- `validateDAG`, with fuel for every id; it never runs out (`search_cases`). -/
def validateDAG (p : Pipeline) : Option (Except PipelineError Unit) :=
  (Dfs.search p.next (p.ids ++ p.listed).length p.ids ⟨∅, ∅⟩).map fun found =>
    if found then .error .cyclicDependency else .ok ()

/-! ### The graph of a pipeline -/

variable {p : Pipeline} {id d x : String} {job : Job}

theorem mem_of_jobMap (h : p.jobMap id = some job) : job ∈ p.jobs ∧ job.id = id :=
  ⟨mem_reverse.mp (mem_of_find?_eq_some h), by simpa using find?_some h⟩

theorem next_ne_none_iff : p.next id ≠ none ↔ id ∈ p.ids := by
  rw [next, Ne, Option.map_eq_none_iff, ← Ne, jobMap, ← Option.isSome_iff_ne_none, ids]
  simp

theorem dep_iff : Dfs.Dep p.next d x ↔ ∃ job, p.jobMap x = some job ∧ d ∈ job.dependencies := by
  rw [Dfs.Dep, Dfs.deps, next]
  cases p.jobMap x <;> simp

theorem search_cases (p : Pipeline) :
    let nodes := (p.ids ++ p.listed).toFinset
    (p.validateDAG = some (.error .cyclicDependency) ∧ Dfs.Bad p.next nodes) ∨
      (p.validateDAG = some (.ok ()) ∧ ¬ Dfs.Bad p.next nodes ∧ ∀ x ∈ p.ids, Acc (Dfs.Dep p.next) x) := by
  have hn : ∀ d x, Dfs.Dep p.next d x → d ∈ (p.ids ++ p.listed).toFinset := by
    intro d x hde
    obtain ⟨job, hj, hd⟩ := dep_iff.mp hde
    rw [mem_toFinset, mem_append]
    exact .inr (mem_flatMap.mpr ⟨job, (mem_of_jobMap hj).1, hd⟩)
  rcases Dfs.search_spec hn (fun _ => next_ne_none_iff)
    (fun x hx => mem_toFinset.mpr (mem_append_left _ hx)) (toFinset_card_le _) with
    ⟨hr, hb⟩ | ⟨hr, hg, ha⟩
  · exact .inl ⟨by rw [validateDAG, hr]; rfl, hb⟩
  · exact .inr ⟨by rw [validateDAG, hr]; rfl, hg, ha⟩

/-! ### Exactness -/

/-- `x` depends on `d`, and both are jobs of the pipeline. -/
def DependsOn (p : Pipeline) (d x : String) : Prop :=
  (∃ job ∈ p.jobs, job.id = x ∧ d ∈ job.dependencies) ∧ d ∈ p.ids

/-- The dependencies among the jobs of the pipeline have a cycle. -/
def Cyclic (p : Pipeline) : Prop := ∃ x, Relation.TransGen p.DependsOn x x

/-- No id outside of the pipeline is listed twice. -/
def OutsideOnce (p : Pipeline) : Prop := ∀ z, z ∉ p.ids → p.listed.count z ≤ 1

section Distinct

variable (hids : p.ids.Nodup)
include hids

theorem jobMap_eq_some_iff : p.jobMap id = some job ↔ job ∈ p.jobs ∧ job.id = id := by
  refine ⟨mem_of_jobMap, fun h => ?_⟩
  obtain ⟨hj, rfl⟩ := h
  have hsome : p.next job.id ≠ none := next_ne_none_iff.mpr (mem_map_of_mem hj)
  cases hf : p.jobMap job.id with
  | none => exact absurd (by rw [next, hf]; rfl) hsome
  | some other =>
    obtain ⟨hother, hid⟩ := mem_of_jobMap hf
    rw [inj_on_of_nodup_map hids hother hj hid]

theorem dependsOn_iff : p.DependsOn d x ↔ Dfs.Dep p.next d x ∧ d ∈ p.ids := by
  rw [dep_iff]
  refine and_congr_left fun _ => exists_congr fun job => ?_
  rw [jobMap_eq_some_iff hids, and_assoc]

theorem cyclic_iff : p.Cyclic ↔ ∃ x, Relation.TransGen (Dfs.Dep p.next) x x := by
  have hi : ∀ {d x}, Dfs.Dep p.next d x → x ∈ p.ids := by
    intro d x hde
    obtain ⟨job, hj, -⟩ := dep_iff.mp hde
    exact next_ne_none_iff.mp (by rw [next, hj]; simp)
  constructor
  · intro h
    obtain ⟨x, hx⟩ := h
    exact ⟨x, hx.lift (fun y => y) fun d y hd => ((dependsOn_iff hids).mp hd).1⟩
  · intro h
    obtain ⟨x, hx⟩ := h
    obtain ⟨y, -, hlast⟩ := Relation.TransGen.tail'_iff.mp hx
    have hr : ∀ {d}, Relation.TransGen (Dfs.Dep p.next) d x → d ∈ p.ids →
        Relation.TransGen p.DependsOn d x := by
      intro d hd
      induction hd using Relation.TransGen.head_induction_on with
      | single hde => exact fun hin => .single ((dependsOn_iff hids).mpr ⟨hde, hin⟩)
      | head hde _ ih => exact fun hin => .head ((dependsOn_iff hids).mpr ⟨hde, hin⟩) (ih (hi hde))
    exact ⟨x, hr hx (hi hlast)⟩

theorem named_eq (z : String) : Dfs.named p.next (p.ids ++ p.listed).toFinset z = p.listed.count z := by
  have ho : ∀ y ∈ (p.ids ++ p.listed).toFinset, y ∉ p.ids.toFinset →
      (Dfs.deps p.next y).count z = 0 := by
    intro y _ hy
    rw [mem_toFinset, ← next_ne_none_iff, not_not] at hy
    rw [Dfs.deps, hy]
    rfl
  have hi' : p.ids.toFinset ⊆ (p.ids ++ p.listed).toFinset := by
    rw [toFinset_append]
    exact Finset.subset_union_left
  rw [Dfs.named, ← Finset.sum_subset hi' ho, sum_toFinset _ hids, ids, map_map, listed, count_flatMap]
  refine congrArg sum (map_congr_left fun job hj => ?_)
  have hf := (jobMap_eq_some_iff hids).mpr ⟨hj, rfl⟩
  simp [Dfs.deps, next, hf]

theorem bad_iff : Dfs.Bad p.next (p.ids ++ p.listed).toFinset ↔ p.Cyclic ∨ ¬ p.OutsideOnce := by
  rw [Dfs.Bad, ← cyclic_iff hids, OutsideOnce]
  refine or_congr Iff.rfl ?_
  simp only [not_forall, not_le, exists_prop, named_eq hids, ← next_ne_none_iff, not_not]
  rfl

end Distinct

/-- **With distinct job ids, `validateDAG` reports a cycle exactly if there is one, if and only if there is one or
no id outside of the pipeline is listed twice.** -/
theorem validateDAG_exact_iff (p : Pipeline) (hids : p.ids.Nodup) :
    (p.validateDAG = some (.error .cyclicDependency) ↔ p.Cyclic) ↔ p.Cyclic ∨ p.OutsideOnce := by
  rcases search_cases p with ⟨hr, hb⟩ | ⟨hr, hg, -⟩
  · rw [bad_iff hids] at hb
    tauto
  · rw [bad_iff hids] at hg
    rw [hr]
    tauto

/-- Two jobs, the second of which depends on the first. -/
def chain : Pipeline :=
  ⟨[{ id := "a", status := .pending, dependencies := ["x"] },
    { id := "b", status := .waiting, dependencies := ["a", "y"] }]⟩

theorem validateDAG_exact_chain :
    chain.OutsideOnce ∧ (chain.validateDAG = some (.error .cyclicDependency) ↔ chain.Cyclic) := by
  have ho : chain.OutsideOnce := by
    intro z hz
    simp only [ids, chain, map_cons, map_nil, mem_cons, not_mem_nil, or_false, not_or] at hz
    simp only [listed, chain, flatMap_cons, flatMap_nil, append_nil, cons_append,
      nil_append, count_cons, count_nil]
    by_cases hx : z = "x"
    · subst hx; decide
    · by_cases hy : z = "y"
      · subst hy; decide
      · simp [Ne.symm hx, Ne.symm hy, Ne.symm hz.1]
  exact ⟨ho, (validateDAG_exact_iff chain (by decide)).mpr (.inr ho)⟩

/-- Two jobs that wait for the same job of another pipeline. -/
def shared : Pipeline :=
  ⟨[{ id := "a", status := .pending, dependencies := ["x"] },
    { id := "b", status := .pending, dependencies := ["x"] }]⟩

/-- They are reported as a cycle, and neither depends on the other. -/
theorem shared_dependency_reported : shared.validateDAG = some (.error .cyclicDependency) ∧ ¬ shared.Cyclic := by
  refine ⟨by decide +kernel, fun hc => ?_⟩
  obtain ⟨x, hx⟩ := hc
  obtain ⟨y, hd, -⟩ := Relation.TransGen.head'_iff.mp hx
  obtain ⟨⟨job, hj, -, hli⟩, hid⟩ := hd
  have hl : ∀ job ∈ shared.jobs, ∀ d ∈ job.dependencies, d ∉ shared.ids := by decide
  exact hl job hj x hli hid

/-! ### Progress -/

theorem canRun_iff {completedJobs : String → Bool} :
    job.canRun completedJobs = true ↔ (job.status = .pending ∨ job.status = .queued ∨ job.status = .waiting) ∧
      ∀ d ∈ job.dependencies, completedJobs d = true := by
  rw [Job.canRun, ← all_eq_true]
  split
  next h => simp [h]
  next h => tauto

/-- **In an accepted pipeline that is not completed some job can run**, if all outside dependencies are completed
and every uncompleted job is pending, queued or waiting. -/
theorem accepted_never_deadlocks (p : Pipeline) (hdag : p.validateDAG = some (.ok ())) (completedJobs : String → Bool)
    (houtside : ∀ job ∈ p.jobs, ∀ d ∈ job.dependencies, d ∉ p.ids → completedJobs d = true)
    (hopen : ∃ job ∈ p.jobs, completedJobs job.id = false) (hstatus : ∀ job ∈ p.jobs, completedJobs job.id = false →
      job.status = .pending ∨ job.status = .queued ∨ job.status = .waiting) :
    ∃ job ∈ p.jobs, completedJobs job.id = false ∧ job.canRun completedJobs = true := by
  have ha : ∀ x ∈ p.ids, Acc (Dfs.Dep p.next) x := by
    rcases search_cases p with ⟨hr, -⟩ | ⟨-, -, ha⟩
    · rw [hr] at hdag
      cases hdag
    · exact ha
  obtain ⟨job, hj, hleft⟩ := hopen
  have hin : job.id ∈ p.ids := mem_map_of_mem hj
  generalize job.id = x at hleft hin
  -- from an open job to one of its open dependencies, as long as there is one
  induction ha x hin with
  | intro x _ ih =>
    obtain ⟨found, hf⟩ : ∃ found, p.jobMap x = some found := by
      have hsome := next_ne_none_iff.mpr hin
      rw [next, Ne, Option.map_eq_none_iff] at hsome
      exact Option.ne_none_iff_exists'.mp hsome
    obtain ⟨hmem, rfl⟩ := mem_of_jobMap hf
    by_cases hall : ∀ d ∈ found.dependencies, completedJobs d = true
    · exact ⟨found, hmem, hleft, canRun_iff.mpr ⟨hstatus found hmem hleft, hall⟩⟩
    · simp only [not_forall] at hall
      obtain ⟨d, hd, hdo⟩ := hall
      have hdi : d ∈ p.ids := by
        by_contra ho
        exact hdo (houtside found hmem d hd ho)
      exact ih d (dep_iff.mpr ⟨found, hf, hd⟩) (Bool.not_eq_true _ ▸ hdo) hdi

theorem chain_never_deadlocks : chain.validateDAG = some (.ok ()) ∧
      ∃ job ∈ chain.jobs, (["x", "y"].elem job.id) = false ∧ job.canRun ["x", "y"].elem = true := by
  have hd : chain.validateDAG = some (.ok ()) := by decide +kernel
  exact ⟨hd, accepted_never_deadlocks chain hd ["x", "y"].elem (by decide) (by decide) (by decide)⟩

end Pipeline

end Bib.Domain
