import Bib.Lib.Sql.Lexer

/-!
# Bib.Storage.SortField

**The sort field of a listing** (`List` of `internal/storage/sqlite/{topics,users,datasets}.go`, and how the
services fill the filters). Every value of a filter becomes an argument of the statement, except the sort field:
that one is written into its text. The statement is looked at as SQLite reads it, token by token and up to the
first NUL.
-/

namespace Bib.Storage.SortField

open Bib.Lib.Sql List

/-! ### The statements -/

inductive Arg
  | text (s : String)
  | int (n : Int)

/-- The fields that the three filters have in common. -/
structure Order where
  orderBy : List Char
  orderDesc : Bool
  (limit offset : Int)

/-- `bibv1.PageRequest` and `bibv1.SortOrder` of a request, as the three services take them over. -/
def Order.ofRequest (page : Option (Int × Int)) (sort : Option (List Char × Bool)) : Order :=
  let limit := (page.map Prod.fst).getD 0
  let limit := if limit ≤ 0 then 50 else limit
  { orderBy := (sort.map Prod.fst).getD []
    orderDesc := (sort.map Prod.snd).getD false
    limit := if limit > 1000 then 1000 else limit
    offset := (page.map Prod.snd).getD 0 }

structure TopicFilter extends Order where
  status : String
  (parentID ownerID : Option String)
  tags : List String
  search : String

structure UserFilter extends Order where
  (status role search : String)

structure DatasetFilter extends Order where
  topicID : Option String
  status : String
  ownerID : Option String
  (hasContent hasInstructions : Option Bool)
  search : String

/-- A piece of the `WHERE` clause with its arguments. -/
abbrev Condition := String × List Arg

def unlessEmpty (value : String) (condition : Condition) : List Condition :=
  if value ≠ "" then [condition] else []

def contains (s : String) : Arg := .text ("%" ++ s ++ "%")

def boolToInt (b : Bool) : Arg := .int (if b then 1 else 0)

def TopicFilter.conditions (filter : TopicFilter) : List Condition :=
  unlessEmpty filter.status (" AND status = ?", [.text filter.status]) ++
  (filter.parentID.toList.map fun id =>
    if id = "" then (" AND parent_id IS NULL", []) else (" AND parent_id = ?", [.text id])) ++
  (filter.ownerID.toList.map fun id => (" AND owners LIKE ?", [contains id])) ++
  unlessEmpty filter.search
    (" AND (name LIKE ? OR description LIKE ?)", [contains filter.search, contains filter.search]) ++
  filter.tags.map fun tag => (" AND tags LIKE ?", [contains ("\"" ++ tag ++ "\"")])

def UserFilter.conditions (filter : UserFilter) : List Condition :=
  unlessEmpty filter.status (" AND status = ?", [.text filter.status]) ++
  unlessEmpty filter.role (" AND role = ?", [.text filter.role]) ++
  unlessEmpty filter.search
    (" AND (name LIKE ? OR email LIKE ?)", [contains filter.search, contains filter.search])

def DatasetFilter.conditions (filter : DatasetFilter) : List Condition :=
  (filter.topicID.toList.map fun id => (" AND topic_id = ?", [.text id])) ++
  unlessEmpty filter.status (" AND status = ?", [.text filter.status]) ++
  (filter.ownerID.toList.map fun id => (" AND owners LIKE ?", [contains id])) ++
  (filter.hasContent.toList.map fun b => (" AND has_content = ?", [boolToInt b])) ++
  (filter.hasInstructions.toList.map fun b => (" AND has_instructions = ?", [boolToInt b])) ++
  unlessEmpty filter.search
    (" AND (name LIKE ? OR description LIKE ?)", [contains filter.search, contains filter.search])

inductive ListCall
  | topics (filter : TopicFilter)
  | users (filter : UserFilter)
  | datasets (filter : DatasetFilter)

namespace ListCall

def order : ListCall → Order
  | topics filter => filter.toOrder
  | users filter => filter.toOrder
  | datasets filter => filter.toOrder

def conditions : ListCall → List Condition
  | topics filter => filter.conditions
  | users filter => filter.conditions
  | datasets filter => filter.conditions

def columns : ListCall → List String
  | topics _ => ["id", "parent_id", "name", "description", "table_schema", "status", "owners", "created_by",
      "created_at", "updated_at", "dataset_count", "tags", "metadata"]
  | users _ => ["id", "public_key", "key_type", "public_key_fingerprint", "name", "email", "status", "role",
      "locale", "created_at", "updated_at", "last_login_at", "metadata"]
  | datasets _ => ["id", "topic_id", "name", "description", "status", "latest_version_id", "version_count",
      "has_content", "has_instructions", "owners", "created_by", "created_at", "updated_at", "tags", "metadata"]

def source : ListCall → String
  | topics _ => "topics WHERE 1=1"
  | users _ => "users WHERE status != 'deleted'"
  | datasets _ => "datasets WHERE 1=1"

/-- The statement that `query` begins with. -/
def fixed (call : ListCall) : List Char :=
  ("\n\t\tSELECT " ++ ", ".intercalate call.columns ++ "\n\t\tFROM " ++ call.source ++ "\n\t").toList

def select (call : ListCall) : List Char := call.fixed ++ call.conditions.flatMap fun c => c.1.toList

end ListCall

/-- What stands behind the sort field. -/
def Order.ending (order : Order) : List Char :=
  ((if order.orderDesc then "DESC" else "ASC") ++ (if order.limit > 0 then " LIMIT ?" else "") ++
    (if order.offset > 0 then " OFFSET ?" else "")).toList

/-- The sort field, `name` by default. -/
def Order.field (order : Order) : List Char := if order.orderBy ≠ [] then order.orderBy else "name".toList

/-- The text and the arguments that `List` passes to `queryWithAudit`. -/
def ListCall.query (call : ListCall) : List Char × List Arg :=
  (call.select ++ " ORDER BY ".toList ++ call.order.field ++ " ".toList ++ call.order.ending,
    call.conditions.flatMap Prod.snd ++ (if call.order.limit > 0 then [.int call.order.limit] else []) ++
      (if call.order.offset > 0 then [.int call.order.offset] else []))

/-! ### How SQLite reads them -/

/-- The characters that end something quoted. -/
def Closes (c : Char) : Prop := c = '\'' ∨ c = '"' ∨ c = '\x60' ∨ c = ']'

/-- The closing character of a quoted identifier. -/
def closing (c : Char) : Option (Char × Bool) :=
  if c = '"' then some ('"', true) else if c = '\x60' then some ('\x60', true)
  else if c = '[' then some (']', false) else none

theorem closes_of_closing (c close : Char) (twice : Bool) (h : closing c = some (close, twice)) : Closes close := by
  unfold closing at h
  split_ifs at h <;> cases h <;> simp [Closes]

theorem not_isIdent_of_closes {c : Char} (h : Closes c) : isIdent c = false := by
  obtain rfl | rfl | rfl | rfl := h <;> decide

def sqlite : Dialect where
  nested := false
  isBlank := isAsciiSpace
  closing := closing
  isAsciiSpace_of_isBlank := fun _ h => h
  not_isIdent_of_closing := fun c close twice h => not_isIdent_of_closes (closes_of_closing c close twice h)

def read (text : List Char) : List Char := text.takeWhile (· ≠ '\x00')

/-- What follows the sort field is not read: it is in a comment, in something quoted, or behind a NUL. -/
def Swallows (field : List Char) : Prop := '\x00' ∈ field ∨ (stateAfter sqlite .top field).isOpen = true

instance (field : List Char) : Decidable (Swallows field) := inferInstanceAs (Decidable (_ ∨ _))

def word (s : String) : Token := .word s.toList

def Order.endTokens (order : Order) : List Token :=
  (if order.orderDesc then word "DESC" else word "ASC") ::
    ((if order.limit > 0 then [word "LIMIT", .symbol '?'] else []) ++
      (if order.offset > 0 then [word "OFFSET", .symbol '?'] else []))

/-- The columns of the table: those that are selected, the one for the cache, and the names of the row id. -/
def ListCall.tableColumns (call : ListCall) : List String :=
  call.columns ++ (match call with | users _ => [] | _ => ["cached_at"]) ++ ["rowid", "oid", "_rowid_"]

/-- The token is the name of a column, in letters of either case: a word or a quoted identifier. Between
apostrophes it would be a text. -/
def ListCall.IsColumn (call : ListCall) : Token → Prop
  | .word letters => ∃ column ∈ call.tableColumns, letters.map Char.toLower = column.toList
  | .quoted close letters =>
    close ≠ '\'' ∧ ∃ column ∈ call.tableColumns, letters.map Char.toLower = column.toList
  | _ => False

/-- The statement is the `SELECT` with its conditions, ordered by one column. -/
def ListCall.OrdersByColumn (call : ListCall) : Prop :=
  ∃ column, call.IsColumn column ∧
    tokens sqlite (read call.query.1) =
      tokens sqlite call.select ++ word "ORDER" :: word "BY" :: column :: call.order.endTokens

/-- The sort field is empty, or one column. If nothing behind it is read, it holds the rest of the statement
as well. -/
def ListCall.SortsByColumn (call : ListCall) : Prop :=
  call.order.orderBy = [] ∨ ∃ column, call.IsColumn column ∧
    tokens sqlite (read call.order.orderBy) =
      column :: if Swallows call.order.orderBy then call.order.endTokens else []

/-! ### The pieces of a statement -/

theorem quotesBy_ne_space : sqlite.QuotesBy (· ≠ ' ') := by
  refine ⟨by decide, fun c close twice h => ?_⟩
  obtain rfl | rfl | rfl | rfl := closes_of_closing c close twice h <;> decide

/-- Texts without a NUL that leave nothing open. -/
structure Complete (text : List Char) : Prop where
  closed : (stateAfter sqlite .top text).isOpen = false
  nul : ∀ c ∈ text, c ≠ '\x00'

theorem complete_iff (text : List Char) :
    Complete text ↔ ((stateAfter sqlite .top text).isOpen = false ∧ text.all (· ≠ '\x00') = true) := by
  rw [all_eq_true]
  simp only [decide_eq_true_eq]
  exact ⟨fun h => ⟨h.closed, h.nul⟩, fun h => ⟨h.1, h.2⟩⟩

instance (text : List Char) : Decidable (Complete text) := decidable_of_iff _ (complete_iff text).symm

variable {text : List Char}

theorem tokens_append_space (h : Complete text) (rest : List Char) :
    tokens sqlite (text ++ ' ' :: rest) = tokens sqlite text ++ tokens sqlite rest ∧
      stateAfter sqlite .top (text ++ ' ' :: rest) = stateAfter sqlite .top rest :=
  lex_append_blank (by decide) quotesBy_ne_space trivial h.closed

theorem Complete.append_space {rest : List Char} (h : Complete text) (hrest : Complete rest) :
    Complete (text ++ ' ' :: rest) := by
  refine ⟨?_, fun c hc => ?_⟩
  · rw [(tokens_append_space h rest).2]
    exact hrest.closed
  · rcases mem_append.mp hc with hc | hc
    · exact h.nul c hc
    · rcases mem_cons.mp hc with rfl | hc
      · decide
      · exact hrest.nul c hc

theorem read_append (h : ∀ c ∈ text, c ≠ '\x00') (rest : List Char) : read (text ++ rest) = text ++ read rest :=
  takeWhile_append_of_pos fun c hc => decide_eq_true (h c hc)

theorem read_self (h : ∀ c ∈ text, c ≠ '\x00') : read text = text := by
  have hread := read_append h []
  rwa [show read [] = [] from rfl, append_nil] at hread

def IsPiece (text : String) : Prop := text.toList.head? = some ' ' ∧ Complete text.toList.tail

instance (text : String) : Decidable (IsPiece text) := inferInstanceAs (Decidable (_ ∧ _))

theorem forall_mem_unlessEmpty {value : String} {condition : Condition} {p : Condition → Prop} :
    (∀ c ∈ unlessEmpty value condition, p c) ↔ (value ≠ "" → p condition) := by
  unfold unlessEmpty
  split <;> simp_all

theorem isPiece_conditions (call : ListCall) : ∀ c ∈ call.conditions, IsPiece c.1 := by
  have hst : IsPiece " AND status = ?" := by decide +kernel
  have ho : IsPiece " AND owners LIKE ?" := by decide +kernel
  have hs : IsPiece " AND (name LIKE ? OR description LIKE ?)" := by decide +kernel
  cases call with
  | topics filter =>
    have hp : ∀ id : String, IsPiece
        (if id = "" then (" AND parent_id IS NULL", []) else (" AND parent_id = ?", [.text id]) : Condition).1 := by
      intro id
      split
      · exact (by decide +kernel : IsPiece " AND parent_id IS NULL")
      · exact (by decide +kernel : IsPiece " AND parent_id = ?")
    have ht : IsPiece " AND tags LIKE ?" := by decide +kernel
    simp only [ListCall.conditions, TopicFilter.conditions, forall_mem_append, forall_mem_map,
      forall_mem_unlessEmpty]
    exact ⟨⟨⟨⟨fun _ => hst, fun id _ => hp id⟩, fun _ _ => ho⟩, fun _ => hs⟩, fun _ _ => ht⟩
  | users filter =>
    have hrole : IsPiece " AND role = ?" := by decide +kernel
    have he : IsPiece " AND (name LIKE ? OR email LIKE ?)" := by decide +kernel
    simp only [ListCall.conditions, UserFilter.conditions, forall_mem_append, forall_mem_unlessEmpty]
    exact ⟨⟨fun _ => hst, fun _ => hrole⟩, fun _ => he⟩
  | datasets filter =>
    have htopic : IsPiece " AND topic_id = ?" := by decide +kernel
    have hc : IsPiece " AND has_content = ?" := by decide +kernel
    have hi : IsPiece " AND has_instructions = ?" := by decide +kernel
    simp only [ListCall.conditions, DatasetFilter.conditions, forall_mem_append, forall_mem_map,
      forall_mem_unlessEmpty]
    exact ⟨⟨⟨⟨⟨fun _ _ => htopic, fun _ => hst⟩, fun _ _ => ho⟩, fun _ _ => hc⟩,
      fun _ _ => hi⟩, fun _ => hs⟩

theorem complete_fixed (call : ListCall) : Complete call.fixed := by
  cases call <;> simp only [ListCall.fixed, ListCall.columns, ListCall.source] <;> decide +kernel

theorem complete_select (call : ListCall) : Complete call.select := by
  have hgo : ∀ (conditions : List Condition) (text : List Char), Complete text →
      (∀ c ∈ conditions, IsPiece c.1) → Complete (text ++ conditions.flatMap fun c => c.1.toList) := by
    intro conditions
    induction conditions with
    | nil => intro text ht _; simpa using ht
    | cons c conditions ih =>
      intro text ht hall
      obtain ⟨hc, hrest⟩ := forall_mem_cons.mp hall
      rw [flatMap_cons, ← append_assoc, ← cons_head?_tail hc.1]
      exact ih _ (ht.append_space hc.2) hrest
  exact hgo call.conditions call.fixed (complete_fixed call) (isPiece_conditions call)

/-! ### The sort field -/

/-- The endings are few: a property of a text that can be tested holds of all of them, if it does of eight. -/
theorem ending_cases {p : List Char → List Token → Prop} (order : Order)
    (h : ∀ desc limit offset : Bool,
      let order : Order := ⟨[], desc, if limit then 1 else 0, if offset then 1 else 0⟩
      p order.ending order.endTokens) : p order.ending order.endTokens := by
  have hc := h order.orderDesc (order.limit > 0) (order.offset > 0)
  unfold Order.ending Order.endTokens at hc ⊢
  by_cases hl : order.limit > 0 <;> by_cases ho : order.offset > 0 <;>
    simpa [hl, ho] using hc

theorem tokens_ending (order : Order) : tokens sqlite order.ending = order.endTokens :=
  ending_cases (p := fun text ts => tokens sqlite text = ts) order (by decide +kernel)

theorem mem_ending (order : Order) : ∀ c ∈ order.ending, c ≠ '\x00' ∧ c ≠ '\n' ∧ c ≠ '/' ∧ ¬ Closes c := by
  have hall : order.ending.all (fun c => c.isUpper || c = ' ' || c = '?') = true :=
    ending_cases (p := fun text _ => text.all (fun c => c.isUpper || c = ' ' || c = '?') = true) order
      (by decide +kernel)
  intro c hc
  have hc := all_eq_true.mp hall c hc
  refine ⟨?_, ?_, ?_, ?_⟩
  · rintro rfl; exact absurd hc (by decide)
  · rintro rfl; exact absurd hc (by decide)
  · rintro rfl; exact absurd hc (by decide)
  · rintro (rfl | rfl | rfl | rfl) <;> exact absurd hc (by decide)

theorem read_of_nul {field : List Char} (h : '\x00' ∈ field) (rest : List Char) :
    read (field ++ rest) = read field := by
  unfold read
  induction field with
  | nil => cases h
  | cons c field ih =>
    by_cases hc : c = '\x00'
    · simp [hc]
    · have hmem : '\x00' ∈ field := (mem_cons.mp h).resolve_left (Ne.symm hc)
      rw [cons_append, takeWhile_cons_of_pos (by simpa using hc),
        takeWhile_cons_of_pos (by simpa using hc), ih hmem]

theorem tokens_field (field : List Char) (order : Order) :
    tokens sqlite (read (field ++ ' ' :: order.ending)) =
      tokens sqlite (read field) ++ if Swallows field then [] else order.endTokens := by
  by_cases hn : '\x00' ∈ field
  · rw [read_of_nul hn, if_pos (.inl hn), append_nil]
  have hf : ∀ c ∈ field, c ≠ '\x00' := fun c hc heq => hn (heq ▸ hc)
  have hrest : ∀ c ∈ ' ' :: order.ending, c ≠ '\x00' ∧ c ≠ '\n' ∧ c ≠ '/' ∧ ¬ Closes c := by
    rw [forall_mem_cons]
    exact ⟨by simp [Closes], mem_ending order⟩
  have hread : read (field ++ ' ' :: order.ending) = field ++ ' ' :: order.ending := by
    rw [read_append hf, read_self fun c hc => (hrest c hc).1]
  rw [hread, read_self hf]
  by_cases ho : (stateAfter sqlite .top field).isOpen = true
  · rw [if_pos (.inr ho), append_nil]
    exact lex_append_of_open ⟨.inl rfl, closes_of_closing⟩ trivial ho fun c hc => (hrest c hc).2
  · have hcl : Complete field := ⟨Bool.eq_false_iff.mpr ho, hf⟩
    have hs : ¬ Swallows field := by
      intro h
      exact h.elim hn ho
    rw [(tokens_append_space hcl _).1, if_neg hs, tokens_ending]

theorem tokens_query (call : ListCall) :
    tokens sqlite (read call.query.1) = tokens sqlite call.select ++ word "ORDER" :: word "BY" ::
      (tokens sqlite (read call.order.field) ++ if Swallows call.order.field then [] else call.order.endTokens) := by
  have hby : Complete "ORDER BY".toList := by decide +kernel
  have ht : call.query.1 =
      (call.select ++ ' ' :: "ORDER BY".toList) ++ ' ' :: (call.order.field ++ ' ' :: call.order.ending) := by
    unfold ListCall.query
    simp
  have hf := (complete_select call).append_space hby
  have hn : ∀ c ∈ (call.select ++ ' ' :: "ORDER BY".toList) ++ [' '], c ≠ '\x00' :=
    forall_mem_append.mpr ⟨hf.nul, by simp⟩
  rw [ht, append_cons, read_append hn, ← append_cons, (tokens_append_space hf _).1,
    (tokens_append_space (complete_select call) _).1, tokens_field, append_assoc]
  rfl

/-- **The list is ordered by one column exactly if the sort field is one.** -/
theorem sort_field_only_orders_iff (call : ListCall) : call.OrdersByColumn ↔ call.SortsByColumn := by
  have hn : call.IsColumn (word "name") := by
    refine ⟨"name", ?_, by decide⟩
    cases call <;> simp [ListCall.tableColumns, ListCall.columns]
  unfold ListCall.OrdersByColumn ListCall.SortsByColumn
  simp only [tokens_query, append_cancel_left_eq, cons.injEq, true_and]
  by_cases horder : call.order.orderBy = []
  · have hf : call.order.field = "name".toList := by rw [Order.field, if_neg (not_not.mpr horder)]
    refine iff_of_true ⟨word "name", hn, ?_⟩ (.inl horder)
    rw [hf]
    rfl
  · have hf : call.order.field = call.order.orderBy := by rw [Order.field, if_pos horder]
    rw [hf, or_iff_right horder]
    refine exists_congr fun column => and_congr_right fun _ => ?_
    by_cases hs : Swallows call.order.orderBy
    · rw [if_pos hs, if_pos hs, append_nil]
    · rw [if_neg hs, if_neg hs, ← singleton_append, append_cancel_right_eq]

/-- A second statement in the sort field of a request. -/
theorem sort_field_deletes_topics :
    let filter : TopicFilter :=
      { Order.ofRequest none (some ("name; DELETE FROM topics; --".toList, false)) with
        status := "", parentID := none, ownerID := none, tags := [], search := "" }
    let call := ListCall.topics filter
    tokens sqlite (read call.query.1) = tokens sqlite call.select ++ [word "ORDER", word "BY", word "name",
      .symbol ';', word "DELETE", word "FROM", word "topics", .symbol ';'] ∧ ¬ call.OrdersByColumn := by
  intro filter call
  have ht : tokens sqlite (read call.query.1) = tokens sqlite call.select ++ [word "ORDER", word "BY",
      word "name", .symbol ';', word "DELETE", word "FROM", word "topics", .symbol ';'] := by
    decide +kernel
  refine ⟨ht, ?_⟩
  intro h
  obtain ⟨column, -, h⟩ := h
  rw [ht, append_cancel_left_eq] at h
  have he : call.order.endTokens = [word "ASC", word "LIMIT", .symbol '?'] := by decide +kernel
  rw [he] at h
  exact absurd (congrArg length h) (by simp)

end Bib.Storage.SortField
