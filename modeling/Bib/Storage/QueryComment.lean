import Bib.Lib.Sql.Comment

/-!
# Bib.Storage.QueryComment

**Query tagging** (`internal/storage/context.go`, `execWithAudit` and `queryWithAudit` of both stores): each query
goes to the database behind a block comment that names the operation. SQLite ends a comment at the
first closing mark, PostgreSQL nests comments, and both read a text only up to a NUL. The values of the
operation context stand in the comment as they are, so the comment ends where it should exactly if they do
not end it (`query_tagged_iff`).
-/

namespace Bib.Storage

open Bib.Lib.Sql

abbrev Bytes := List UInt8

def bytesOf (s : String) : Bytes := s.toList.map fun c => c.toNat.toUInt8

def starByte : UInt8 := 42
def slashByte : UInt8 := 47
def nulByte : UInt8 := 0
def spaceByte : UInt8 := 32

/-- `OperationContext`, without the start time and the metadata. -/
structure OperationContext where
  (operationID jobID role source actor : Bytes)

namespace OperationContext

def queryComment (oc : OperationContext) : Bytes :=
  let comment := bytesOf "/* "
  let comment := comment ++ (bytesOf "op_id:" ++ oc.operationID)
  let comment := if oc.jobID ≠ [] then comment ++ (bytesOf " job_id:" ++ oc.jobID) else comment
  let comment := comment ++ (bytesOf " role:" ++ oc.role)
  let comment := comment ++ (bytesOf " source:" ++ oc.source)
  let comment := if oc.actor ≠ [] then comment ++ (bytesOf " actor:" ++ oc.actor) else comment
  comment ++ bytesOf " */"

/-- `taggedQuery` of `execWithAudit` and `queryWithAudit`. -/
def taggedQuery (oc : OperationContext) (query : Bytes) : Bytes :=
  oc.queryComment ++ bytesOf " " ++ query

def fields (oc : OperationContext) : List Bytes :=
  [oc.operationID, oc.jobID, oc.role, oc.source, oc.actor]

def entries (oc : OperationContext) : List (Bytes × Bytes) :=
  [(bytesOf " op_id:", oc.operationID)] ++
    (if oc.jobID ≠ [] then [(bytesOf " job_id:", oc.jobID)] else []) ++
    [(bytesOf " role:", oc.role), (bytesOf " source:", oc.source)] ++
    (if oc.actor ≠ [] then [(bytesOf " actor:", oc.actor)] else [])

end OperationContext

inductive Database
  | sqlite
  | postgres

/-- Whether block comments nest. -/
def Database.nests : Database → Bool
  | .sqlite => false
  | .postgres => true

/-- The database reads the tagged query as one comment, `QueryComment()`, and then a space and the
query. -/
def ReadAsQuery (db : Database) (oc : OperationContext) (query : Bytes) : Prop :=
  skipComment db.nests starByte slashByte (oc.taggedQuery query) = some (spaceByte :: query) ∧
    nulByte ∉ oc.queryComment

/-- The values leave the comment open that they stand in. -/
def KeepsComment (db : Database) (fields : List Bytes) : Prop :=
  match db with
  | .sqlite => ∀ field ∈ fields, ¬ [starByte, slashByte] <:+: field
  | .postgres => fields.foldlM (openComments true starByte slashByte) 0 = some 0

variable {oc : OperationContext} {query : Bytes} {db : Database}

namespace OperationContext

theorem queryComment_eq : oc.queryComment = slashByte :: starByte ::
      ((oc.entries.flatMap fun e => e.1 ++ e.2) ++ [spaceByte, starByte, slashByte]) := by
  have ho : bytesOf "/* " ++ (bytesOf "op_id:" ++ oc.operationID) =
      slashByte :: starByte :: (bytesOf " op_id:" ++ oc.operationID) := rfl
  have hc : bytesOf " */" = [spaceByte, starByte, slashByte] := rfl
  unfold queryComment entries
  dsimp only
  rw [ho, hc]
  split_ifs <;> simp

theorem label_of_entry {e : Bytes × Bytes} (h : e ∈ oc.entries) :
    e.1 ≠ [] ∧ starByte ∉ e.1 ∧ slashByte ∉ e.1 ∧ nulByte ∉ e.1 := by
  have hl : ∀ label ∈ ([" op_id:", " job_id:", " role:", " source:", " actor:"].map bytesOf),
      label ≠ [] ∧ starByte ∉ label ∧ slashByte ∉ label ∧ nulByte ∉ label := by decide
  refine hl e.1 ?_
  unfold entries at h
  split_ifs at h <;> simp at h <;> aesop

theorem foldlM_entries (nested : Bool) :
    (oc.entries.map Prod.snd).foldlM (openComments nested starByte slashByte) 0 =
      oc.fields.foldlM (openComments nested starByte slashByte) 0 := by
  have he : ∀ depth, openComments nested starByte slashByte depth [] = some depth := fun _ => rfl
  unfold entries fields
  split_ifs <;> simp_all

theorem mem_values_iff {b : UInt8} : (∃ e ∈ oc.entries, b ∈ e.2) ↔ ∃ field ∈ oc.fields, b ∈ field := by
  unfold entries fields
  split_ifs <;> simp_all

theorem nul_notMem_iff : nulByte ∉ oc.queryComment ↔ ∀ field ∈ oc.fields, nulByte ∉ field := by
  have hva : nulByte ∈ oc.queryComment ↔ ∃ e ∈ oc.entries, nulByte ∈ e.2 := by
    rw [queryComment_eq]
    simp only [List.mem_cons, List.mem_append, List.mem_flatMap, List.not_mem_nil, or_false]
    constructor
    · intro h
      obtain h | h | ⟨e, he, hl | hv⟩ | h | h | h := h
      · cases h
      · cases h
      · exact absurd hl (label_of_entry he).2.2.2
      · exact ⟨e, he, hv⟩
      · cases h
      · cases h
      · cases h
    · intro h
      obtain ⟨e, he, hv⟩ := h
      exact .inr (.inr (.inl ⟨e, he, .inr hv⟩))
  rw [hva, mem_values_iff]
  push Not
  rfl

/-- The comment ends with its last mark exactly if the values open as many comments as they close. -/
theorem skipComment_taggedQuery_iff (nested : Bool) :
    skipComment nested starByte slashByte (oc.taggedQuery query) = some (spaceByte :: query) ↔
      oc.fields.foldlM (openComments nested starByte slashByte) 0 = some 0 := by
  have ht : oc.taggedQuery query = slashByte :: starByte ::
      ((oc.entries.flatMap fun e => e.1 ++ e.2) ++
        spaceByte :: starByte :: slashByte :: (spaceByte :: query)) := by
    rw [taggedQuery, queryComment_eq]
    have hs : bytesOf " " = [spaceByte] := rfl
    simp [hs]
  have hl : ∀ e ∈ oc.entries, e.1 ≠ [] ∧ starByte ∉ e.1 ∧ slashByte ∉ e.1 :=
    fun e he => ⟨(label_of_entry he).1, (label_of_entry he).2.1, (label_of_entry he).2.2.1⟩
  rw [ht, skipComment, if_pos ⟨rfl, rfl⟩,
    closeComment_eq_iff (by decide : spaceByte ≠ starByte) (by decide : spaceByte ≠ slashByte),
    openComments, openComments_entries 0 hl, foldlM_entries]

end OperationContext

theorem keepsComment_iff {fields : List Bytes} :
    fields.foldlM (openComments db.nests starByte slashByte) 0 = some 0 ↔ KeepsComment db fields := by
  cases db with
  | sqlite => exact openComments_flat_all
  | postgres => exact Iff.rfl

/-- A database reads the query and nothing else exactly if no value that stands in the comment ends it,
in SQLite by the closing mark, in PostgreSQL by more closing than opening marks, and none is cut short
by a NUL. -/
theorem query_tagged_iff (db : Database) (oc : OperationContext) (query : Bytes) :
    ReadAsQuery db oc query ↔ KeepsComment db oc.fields ∧ ∀ field ∈ oc.fields, nulByte ∉ field := by
  rw [ReadAsQuery, OperationContext.skipComment_taggedQuery_iff, keepsComment_iff,
    OperationContext.nul_notMem_iff]

/-- The actor ends the comment, and what follows in it is a statement of its own; the query itself
stands in a comment then. -/
theorem actor_ends_comment :
    let oc : OperationContext :=
      { operationID := bytesOf "1", jobID := [], role := bytesOf "bibd_query", source := bytesOf "api",
        actor := bytesOf "*/ DELETE FROM topics; --" }
    let query := bytesOf "SELECT 1"
    oc.taggedQuery query =
        bytesOf "/* op_id:1 role:bibd_query source:api actor:*/ DELETE FROM topics; -- */ SELECT 1" ∧
      (∀ db : Database, skipComment db.nests starByte slashByte (oc.taggedQuery query) =
        some (bytesOf " DELETE FROM topics; -- */ SELECT 1")) ∧
      ∀ db : Database, ¬ ReadAsQuery db oc query := by
  have hs : ∀ db : Database, skipComment db.nests starByte slashByte
      (bytesOf "/* op_id:1 role:bibd_query source:api actor:*/ DELETE FROM topics; -- */ SELECT 1") =
        some (bytesOf " DELETE FROM topics; -- */ SELECT 1") := by
    intro db
    cases db <;> decide
  refine ⟨by decide, hs, ?_⟩
  intro db h
  have hread := h.1.symm.trans (hs db)
  exact absurd hread (by decide)

end Bib.Storage
