import Bib.Audit.Repository
import Bib.Lib.Run

/-!
# Bib.Audit.Chain

**When the audit log verifies.** `Log` chains every row to the one written before it, but `VerifyChain` always
starts from the empty hash, and `New` starts a new chain whatever the table holds.

Both results rest on one lemma about `Log` (`log_appends`): it leaves everything as it is, or appends a row that
is linked to `lastHash`.
-/

namespace Bib.Audit

open Bib.Lib Bib.Domain List

/-! ### Calls -/

/-- An entry as most callers pass it: without a hash. -/
abbrev FreshEntry := { entry : AuditEntry // entry.entryHash = "" }

inductive Call
  | log (now : Time) (entry : FreshEntry)
  | purge (before : Time)
  /-- `Close`, then `New` on the same database file. -/
  | reopen (nodeID : String)

def perform (env : Env) (repo : AuditRepository) : Call → AuditRepository
  | .log now entry => (log env now entry repo).2.2
  | .purge before => (purge env before repo).2
  | .reopen nodeID => new repo.table nodeID

def run (env : Env) (repo : AuditRepository) (calls : List Call) : AuditRepository :=
  calls.foldl (perform env) repo

def Call.isReopen : Call → Bool
  | .reopen _ => true
  | _ => false

def Call.isPurge : Call → Bool
  | .purge _ => true
  | _ => false

/-! ### Rows that `Log` writes -/

/-- A stored time reads back as the time it was written for. -/
def readable (env : Env) (timestamp : String) : Bool :=
  env.formatTime ((env.parseTime timestamp).getD zeroTime) = timestamp

def Written (env : Env) (row : AuditRow) : Prop :=
  row.entryHash = env.sha256Hex (row.timestamp ++ hashedFields (scanAuditEntry env row))

variable {env : Env} {row : AuditRow} {hashAt : Nat → String} {repo : AuditRepository}

theorem Written.ne_empty (h : Written env row) : row.entryHash ≠ "" := by
  rw [h]
  exact env.sha256Hex_ne _

/-- The hash of a written row is recomputed exactly if its time can be read back. -/
theorem Written.rowIntact_iff (hs : Function.Injective env.sha256Hex) {row : AuditRow}
    (h : Written env row) : rowIntact env row = true ↔ readable env row.timestamp = true := by
  have hh : (scanAuditEntry env row).entryHash = row.entryHash := rfl
  simp only [rowIntact, readable, calculateEntryHash, hh, decide_eq_true_eq]
  rw [show row.entryHash = _ from h, hs.eq_iff, String.append_left_inj]
  exact eq_comm

def newRow (env : Env) (now : Time) (entry : FreshEntry) (repo : AuditRepository) : AuditRow :=
  { insertedRow env (prepare env now entry repo) with id := repo.table.seq + 1 }

theorem withDefaults_entryHash (now : Time) (entry : AuditEntry) (repo : AuditRepository) :
    (withDefaults now entry repo).entryHash = entry.entryHash := by
  unfold withDefaults
  dsimp only
  split <;> split <;> rfl

theorem prepare_fresh (now : Time) (entry : FreshEntry) {repo : AuditRepository}
    (hc : repo.hashChain = true) : (prepare env now entry repo).prevHash = repo.lastHash ∧
      (prepare env now entry repo).entryHash = calculateEntryHash env (prepare env now entry repo) := by
  have hf : (withDefaults now entry repo).entryHash = "" := by
    rw [withDefaults_entryHash]
    exact entry.2
  have hco : (repo.hashChain && decide ((withDefaults now entry repo).entryHash = "")) = true := by
    rw [hc, hf]
    rfl
  unfold prepare
  rw [if_pos hco]
  exact ⟨rfl, rfl⟩

theorem newRow_prevHash (now : Time) (entry : FreshEntry) {repo : AuditRepository}
    (hc : repo.hashChain = true) :
    (scanAuditEntry env (newRow env now entry repo)).prevHash = repo.lastHash := by
  simp [scanAuditEntry, newRow, insertedRow, (prepare_fresh now entry hc).1]

theorem hashedFields_scan (env : Env) (entry : AuditEntry) (id : Nat) :
    hashedFields (scanAuditEntry env { insertedRow env entry with id := id }) = hashedFields entry := by
  unfold hashedFields scanAuditEntry insertedRow
  dsimp only
  rw [nullStr_getD, nullStr_getD, nullStr_getD, nullStr_getD]

theorem newRow_written (env : Env) (now : Time) (entry : FreshEntry) {repo : AuditRepository}
    (hc : repo.hashChain = true) : Written env (newRow env now entry repo) := by
  unfold Written newRow
  rw [hashedFields_scan]
  exact (prepare_fresh now entry hc).2

/-- `Log` leaves everything as it is, or appends the completed entry as a row and keeps its hash. -/
theorem log_appends (env : Env) (now : Time) (entry : AuditEntry) {repo : AuditRepository}
    (hc : repo.hashChain = true) :
    (¬ Insertable (insertedRow env (prepare env now entry repo)) repo.table ∧
        (log env now entry repo).2.2 = repo) ∨
      (Insertable (insertedRow env (prepare env now entry repo)) repo.table ∧
        (log env now entry repo).2.2.table.rows = repo.table.rows ++
          [{ insertedRow env (prepare env now entry repo) with id := repo.table.seq + 1 }] ∧
        (log env now entry repo).2.2.table.seq = repo.table.seq + 1 ∧
        (log env now entry repo).2.2.lastHash = (prepare env now entry repo).entryHash ∧
        (log env now entry repo).2.2.hashChain = true) := by
  by_cases h : Insertable (insertedRow env (prepare env now entry repo)) repo.table
  · refine .inr ⟨h, ?_⟩
    simp only [log, dif_pos h, hc, if_true]
    exact ⟨rfl, rfl, trivial, trivial⟩
  · refine .inl ⟨h, ?_⟩
    simp only [log, dif_neg h]

/-! ### One repository -/

/-- `hashAt k` is the hash of the `k`-th row ever written, and empty for 0: every row left is
linked to the row written before it, deleted or not. -/
structure ChainInv (env : Env) (hashAt : Nat → String) (repo : AuditRepository) : Prop where
  hashChain : repo.hashChain = true
  start : hashAt 0 = ""
  ne_empty : ∀ k, 0 < k → k ≤ repo.table.seq → hashAt k ≠ ""
  last : repo.lastHash = hashAt repo.table.seq
  prev : ∀ row ∈ repo.table.rows, (scanAuditEntry env row).prevHash = hashAt (row.id - 1)
  hash : ∀ row ∈ repo.table.rows, row.entryHash = hashAt row.id
  written : ∀ row ∈ repo.table.rows, Written env row

theorem chainInv_new (env : Env) (appendOnly : Bool) (nodeID : String) :
    ChainInv env (fun _ => "") (new (.empty appendOnly) nodeID) := by
  refine ⟨rfl, rfl, fun k hp hle => ?_, rfl, ?_, ?_, ?_⟩
  · exact absurd hle (Nat.not_le_of_gt hp)
  · simp [new, AuditTable.empty]
  · simp [new, AuditTable.empty]
  · simp [new, AuditTable.empty]

theorem chainInv_log (h : ChainInv env hashAt repo) (now : Time) (entry : FreshEntry) :
    ∃ ha', ChainInv env ha' (log env now entry repo).2.2 := by
  rcases log_appends env now entry h.hashChain with
    ⟨-, hsa⟩ | ⟨-, (hr : _ = _ ++ [newRow env now entry repo]), hs, hlast, hc⟩
  · refine ⟨hashAt, ?_⟩
    rw [hsa]
    exact h
  · have hw := newRow_written env now entry h.hashChain
    -- the new row gets the next place; all older rows keep theirs
    let ha' := Function.update hashAt (repo.table.seq + 1) (newRow env now entry repo).entryHash
    have hnew : ha' (repo.table.seq + 1) = (newRow env now entry repo).entryHash :=
      Function.update_self _ _ _
    have hold : ∀ k ≤ repo.table.seq, ha' k = hashAt k := fun k hk =>
      Function.update_of_ne (Nat.ne_of_lt (Nat.lt_succ_of_le hk)) _ _
    refine ⟨ha', hc, ?_, fun k hp hle => ?_, ?_, fun row hrow => ?_, fun row hrow => ?_,
      fun row hrow => ?_⟩
    · exact h.start
    · rw [hs] at hle
      rcases Nat.le_succ_iff.mp hle with hle | heq
      · rw [hold k hle]
        exact h.ne_empty k hp hle
      · rw [heq, hnew]
        exact hw.ne_empty
    · rw [hlast, hs, hnew]
      rfl
    · rw [hr] at hrow
      rcases mem_append.mp hrow with hmem | hmem
      · have hle := (repo.table.ids row hmem).2
        rw [hold _ (Nat.le_trans (Nat.sub_le _ _) hle)]
        exact h.prev row hmem
      · rw [mem_singleton.mp hmem, newRow_prevHash now entry h.hashChain, h.last]
        exact (hold _ (Nat.le_refl _)).symm
    · rw [hr] at hrow
      rcases mem_append.mp hrow with hmem | hmem
      · rw [hold _ (repo.table.ids row hmem).2]
        exact h.hash row hmem
      · rw [mem_singleton.mp hmem]
        exact hnew.symm
    · rw [hr] at hrow
      rcases mem_append.mp hrow with hmem | hmem
      · exact h.written row hmem
      · rw [mem_singleton.mp hmem]
        exact hw

theorem chainInv_purge
    (h : ChainInv env hashAt repo) (before : Time) : ChainInv env hashAt (purge env before repo).2 := by
  unfold purge
  dsimp only
  split
  · exact h
  · exact { h with
      prev := fun row hrow => h.prev row (mem_filter.mp hrow).1
      hash := fun row hrow => h.hash row (mem_filter.mp hrow).1
      written := fun row hrow => h.written row (mem_filter.mp hrow).1 }

theorem chainInv_run (h : ChainInv env hashAt repo) {calls : List Call} (hc : ∀ call ∈ calls, call.isReopen = false) :
    ∃ ha', ChainInv env ha' (run env repo calls) := by
  refine Run.invariant (fun repo => ∃ hashAt, ChainInv env hashAt repo) (fun call => call.isReopen = false)
    (fun repo call hcall hr => ?_) ⟨hashAt, h⟩ hc
  obtain ⟨hashAt, h⟩ := hr
  cases call with
  | log now entry => exact chainInv_log h now entry
  | purge before => exact ⟨hashAt, chainInv_purge h before⟩
  | reopen nodeID => cases hcall

/-! ### Samples -/

/-- A toy environment: the hash puts a character in front, times are strokes. -/
def sampleEnv : Env :=
  { sha256Hex := fun text => "#" ++ text
    sha256Hex_ne := fun text h => absurd (String.append_eq_empty_iff.mp h).1 (by decide)
    formatTime := fun t => String.ofList (List.replicate t.toNat 'x')
    parseTime := fun text => some text.length }

theorem sampleEnv_injective : Function.Injective sampleEnv.sha256Hex := fun _ _ h =>
  (String.append_right_inj "#").mp h

def sampleEntry (timestamp : Time) : FreshEntry :=
  ⟨{ id := 0, timestamp, nodeID := "", jobID := "", operationID := "op", roleUsed := "role"
     action := "SELECT", tableName := "", query := "", queryHash := "", rowsAffected := 0
     durationMS := 0, sourceComponent := "test", actor := "", metadata := "null", prevHash := ""
     entryHash := ""
     flags :=
      { breakGlass := false, rateLimited := false, suspicious := false, alertTriggered := false } },
    rfl⟩

def sampleCalls : List Call := [.log 9 (sampleEntry 1), .log 9 (sampleEntry 2), .purge 2]

/-! ### Ranges -/

def Consecutive (rows : List AuditRow) : Prop := rows.IsChain fun row row' => row'.id = row.id + 1

/-- Rows with consecutive ids are linked to the hash before the first of them. -/
theorem linked_of_consecutive {rows : List AuditRow}
    (hc : Consecutive (row :: rows)) (hids : ∀ r ∈ row :: rows, 0 < r.id)
    (hp : ∀ r ∈ row :: rows, (scanAuditEntry env r).prevHash = hashAt (r.id - 1))
    (hh : ∀ r ∈ row :: rows, r.entryHash = hashAt r.id) :
    HashChain.Linked (fun r => (scanAuditEntry env r).prevHash) AuditRow.entryHash
      (hashAt (row.id - 1)) (row :: rows) := by
  induction rows generalizing row with
  | nil => exact ⟨hp row mem_cons_self, trivial⟩
  | cons next rows ih =>
    obtain ⟨hstep, hrest⟩ := isChain_cons_cons.mp hc
    have ht := ih hrest (fun r hr => hids r (mem_cons_of_mem _ hr))
      (fun r hr => hp r (mem_cons_of_mem _ hr))
      (fun r hr => hh r (mem_cons_of_mem _ hr))
    refine ⟨hp row mem_cons_self, ?_⟩
    rw [hh row mem_cons_self]
    have hid : next.id - 1 = row.id := by omega
    rw [hid] at ht
    exact ht

/-- On one repository a range of consecutive ids verifies exactly when it is empty or starts with the
first row ever written, and all its times read back. -/
theorem verifyChain_range_iff (env : Env) (hsha : Function.Injective env.sha256Hex)
    (appendOnly : Bool) (nodeID : String) (calls : List Call)
    (hcalls : ∀ call ∈ calls, call.isReopen = false) (lo hi : Int)
    (hcons : Consecutive (rowsBetween lo hi (run env (new (.empty appendOnly) nodeID) calls).table)) :
    verifyChain env lo hi (run env (new (.empty appendOnly) nodeID) calls) = true ↔
      (rowsBetween lo hi (run env (new (.empty appendOnly) nodeID) calls).table = [] ∨
        ∃ row ∈ rowsBetween lo hi (run env (new (.empty appendOnly) nodeID) calls).table, row.id = 1) ∧
      ∀ row ∈ rowsBetween lo hi (run env (new (.empty appendOnly) nodeID) calls).table,
        readable env row.timestamp = true := by
  obtain ⟨hashAt, hiv⟩ := chainInv_run (chainInv_new env appendOnly nodeID) hcalls
  generalize run env (new (.empty appendOnly) nodeID) calls = repo at hiv hcons ⊢
  have hmem : ∀ row ∈ rowsBetween lo hi repo.table, row ∈ repo.table.rows := fun _ => mem_of_mem_filter
  have ha : (rowsBetween lo hi repo.table).Pairwise fun row row' => row.id < row'.id :=
    repo.table.ascending.sublist filter_sublist
  have hin : (∀ row ∈ rowsBetween lo hi repo.table, rowIntact env row = true) ↔
      ∀ row ∈ rowsBetween lo hi repo.table, readable env row.timestamp = true :=
    forall₂_congr fun row hrow => (hiv.written row (hmem row hrow)).rowIntact_iff hsha
  rw [verifyChain, HashChain.verify_eq_true_iff, hin]
  refine and_congr_left fun _ => ?_
  cases hro : rowsBetween lo hi repo.table with
  | nil => simp [HashChain.Linked]
  | cons first rest =>
    rw [hro] at hcons hmem ha
    have hl := linked_of_consecutive hcons (fun r hr => (repo.table.ids r (hmem r hr)).1)
      (fun r hr => hiv.prev r (hmem r hr)) (fun r hr => hiv.hash r (hmem r hr))
    have hf := repo.table.ids first (hmem first mem_cons_self)
    have hs : hashAt (first.id - 1) = "" ↔ first.id = 1 := by
      constructor
      · intro he
        by_contra hne
        exact hiv.ne_empty (first.id - 1) (by omega) (by omega) he
      · intro heq
        rw [heq]
        exact hiv.start
    -- only the first row of the range can be row 1
    have hexists : (∃ row ∈ first :: rest, row.id = 1) ↔ first.id = 1 := by
      constructor
      · intro hone
        obtain ⟨row, hrow, hone⟩ := hone
        rcases mem_cons.mp hrow with heq | hrest
        · rw [← heq]
          exact hone
        · have hlt := (pairwise_cons.mp ha).1 row hrest
          omega
      · exact fun heq => ⟨first, mem_cons_self, heq⟩
    rw [hexists, ← hs]
    refine ⟨fun h => .inr ?_, fun h => ?_⟩
    · exact hl.1.symm.trans h.1
    · have he := h.resolve_left (cons_ne_nil _ _)
      rw [he] at hl
      exact hl

theorem verifyChain_range_iff_sample :
    verifyChain sampleEnv 1 2 (run sampleEnv (new (.empty true) "n") sampleCalls) = true ∧
      (rowsBetween 1 2 (run sampleEnv (new (.empty true) "n") sampleCalls).table).length = 2 := by
  refine ⟨(verifyChain_range_iff sampleEnv sampleEnv_injective true "n" sampleCalls ?_ 1 2 ?_).mpr ?_,
    ?_⟩
  · decide
  · unfold Consecutive
    decide +kernel
  · decide +kernel
  · decide +kernel

/-- Two rows of an untouched log; the second one alone does not verify. -/
theorem second_row_does_not_verify :
    (rowsBetween 2 2 (run sampleEnv (new (.empty true) "n") sampleCalls).table).map AuditRow.id = [2] ∧
      verifyChain sampleEnv 2 2 (run sampleEnv (new (.empty true) "n") sampleCalls) = false := by
  decide +kernel

/-! ### Reopening -/

/-- The condition on a call: a row that is going to be stored is linked to the last row of the
table, and its time can be read back. -/
def callOk (env : Env) (repo : AuditRepository) : Call → Bool
  | .log now entry =>
    !decide (Insertable (insertedRow env (prepare env now entry repo)) repo.table) ||
      (repo.lastHash = getLastHash repo &&
        readable env (env.formatTime (prepare env now entry repo).timestamp))
  | _ => true

/-- The whole log is linked, and all times read back. -/
def Sound (env : Env) (repo : AuditRepository) : Prop :=
  HashChain.Linked (fun row => (scanAuditEntry env row).prevHash) AuditRow.entryHash ""
      repo.table.rows ∧
    ∀ row ∈ repo.table.rows, readable env row.timestamp = true

structure LogInv (env : Env) (repo : AuditRepository) : Prop where
  hashChain : repo.hashChain = true
  written : ∀ row ∈ repo.table.rows, Written env row

theorem getLastHash_eq_tip (repo : AuditRepository) :
    getLastHash repo = HashChain.tip AuditRow.entryHash "" repo.table.rows := by
  unfold getLastHash
  rcases eq_nil_or_concat repo.table.rows with hn | ⟨rows, row, hc⟩
  · simp [hn, HashChain.tip]
  · simp [hc, HashChain.tip_concat]

theorem logInv_perform (h : LogInv env repo) {call : Call}
    (hcall : call.isPurge = false) : LogInv env (perform env repo call) := by
  cases call with
  | purge before => cases hcall
  | reopen nodeID => exact ⟨rfl, h.written⟩
  | log now entry =>
    simp only [perform]
    rcases log_appends env now entry h.hashChain with
      ⟨-, hs⟩ | ⟨-, (hr : _ = _ ++ [newRow env now entry repo]), -, -, hc⟩
    · rw [hs]
      exact h
    · refine ⟨hc, fun row hrow => ?_⟩
      rw [hr] at hrow
      rcases mem_append.mp hrow with hmem | hmem
      · exact h.written row hmem
      · rw [mem_singleton.mp hmem]
        exact newRow_written env now entry h.hashChain

theorem sound_perform_iff (h : LogInv env repo) {call : Call} (hcall : call.isPurge = false) :
    Sound env (perform env repo call) ↔ Sound env repo ∧ callOk env repo call = true := by
  cases call with
  | purge before => cases hcall
  | reopen nodeID => simp [perform, Sound, new, callOk]
  | log now entry =>
    simp only [perform]
    rcases log_appends env now entry h.hashChain with
      ⟨hn, hs⟩ | ⟨hi, (hr : _ = _ ++ [newRow env now entry repo]), -, -, -⟩
    · simp [hs, callOk, hn]
    · have ht : (newRow env now entry repo).timestamp =
          env.formatTime (prepare env now entry repo).timestamp := rfl
      simp only [Sound, hr, HashChain.linked_concat, newRow_prevHash now entry h.hashChain,
        forall_mem_append, forall_mem_singleton, callOk, hi, decide_true, Bool.not_true,
        Bool.false_or, Bool.and_eq_true, decide_eq_true_eq, getLastHash_eq_tip, ht]
      tauto

/-- After a reopening of a table that is not empty, a call that stores a row does not meet the
condition: `New` starts from the empty hash. -/
theorem callOk_reopened (h : LogInv env repo) (hne : repo.table.rows ≠ []) (nodeID : String)
    (now : Time) (entry : FreshEntry) (hi : Insertable
      (insertedRow env (prepare env now entry (new repo.table nodeID))) repo.table) :
    callOk env (perform env repo (.reopen nodeID)) (.log now entry) = false := by
  obtain ⟨rows, row, hrows⟩ := (eq_nil_or_concat repo.table.rows).resolve_left hne
  have hlast : getLastHash (new repo.table nodeID) = row.entryHash := by
    simp [getLastHash, new, hrows]
  have hempty : row.entryHash ≠ "" := (h.written row (by simp [hrows])).ne_empty
  have hi' : Insertable (insertedRow env (prepare env now entry (new repo.table nodeID)))
      (new repo.table nodeID).table := hi
  simp only [perform, callOk, hi', hlast, decide_true, Bool.not_true, Bool.false_or]
  rw [decide_eq_false (show ¬ (new repo.table nodeID).lastHash = row.entryHash from hempty.symm),
    Bool.false_and]

theorem rowsBetween_all (table : AuditTable) : rowsBetween 1 table.seq table = table.rows := by
  unfold rowsBetween
  rw [filter_eq_self]
  intro row hrow
  obtain ⟨hp, hle⟩ := table.ids row hrow
  simp only [Bool.and_eq_true, decide_eq_true_eq]
  omega

/-- Across any number of reopenings the whole log verifies exactly when every stored row was linked
to the last row of the table when it was written, and its time reads back. -/
theorem verifyChain_all_iff (env : Env) (hsha : Function.Injective env.sha256Hex)
    (appendOnly : Bool) (nodeID : String) (calls : List Call) (hcalls : ∀ call ∈ calls, call.isPurge = false) :
    verifyChain env 1 (run env (new (.empty appendOnly) nodeID) calls).table.seq
        (run env (new (.empty appendOnly) nodeID) calls) = true ↔
      Run.AllSteps (perform env) (fun repo call => callOk env repo call = true)
        (new (.empty appendOnly) nodeID) calls := by
  have hs : LogInv env (new (.empty appendOnly) nodeID) := ⟨rfl, fun row hrow => absurd hrow not_mem_nil⟩
  have hsound : Sound env (new (.empty appendOnly) nodeID) :=
    ⟨trivial, fun row hrow => absurd hrow not_mem_nil⟩
  have hw := (Run.invariant (LogInv env) (fun call : Call => call.isPurge = false)
    (fun _ _ hcall h => logInv_perform h hcall) hs hcalls).written
  have hi := Run.good_iff_allSteps (LogInv env) (Sound env) (fun call : Call => call.isPurge = false)
    (fun _ _ hcall h => logInv_perform h hcall) (fun _ _ hcall h => sound_perform_iff h hcall) hs
    hcalls
  unfold run
  generalize calls.foldl (perform env) (new (.empty appendOnly) nodeID) = repo at hw hi ⊢
  have hin : (∀ row ∈ repo.table.rows, rowIntact env row = true) ↔
      ∀ row ∈ repo.table.rows, readable env row.timestamp = true :=
    forall₂_congr fun row hrow => (hw row hrow).rowIntact_iff hsha
  rw [verifyChain, rowsBetween_all, HashChain.verify_eq_true_iff, hin]
  exact hi.trans (and_iff_right hsound)

def earlyReopen : List Call := [.reopen "m", .log 9 (sampleEntry 1), .log 9 (sampleEntry 2)]

theorem verifyChain_all_iff_early :
    verifyChain sampleEnv 1 (run sampleEnv (new (.empty true) "n") earlyReopen).table.seq
        (run sampleEnv (new (.empty true) "n") earlyReopen) = true ∧
      (run sampleEnv (new (.empty true) "n") earlyReopen).table.rows.length = 2 := by
  refine ⟨(verifyChain_all_iff sampleEnv sampleEnv_injective true "n" earlyReopen ?_).mpr ?_, ?_⟩
  · decide
  · decide +kernel
  · decide +kernel

def lateReopen : List Call := [.log 9 (sampleEntry 1), .reopen "n", .log 9 (sampleEntry 2)]

/-- One restart between two entries, and the log no longer verifies. -/
theorem restart_breaks_chain :
    (run sampleEnv (new (.empty true) "n") lateReopen).table.rows.length = 2 ∧
      verifyChain sampleEnv 1 (run sampleEnv (new (.empty true) "n") lateReopen).table.seq
        (run sampleEnv (new (.empty true) "n") lateReopen) = false := by
  decide +kernel

end Bib.Audit
