import Bib.Domain.Chunk
import Bib.Lib.Calendar
import Bib.Lib.Json.Struct
import Bib.Lib.Run
import Mathlib.Data.List.Pairwise

/-!
# Bib.Audit.S3Export

**The export of audit entries to object storage** (`S3Exporter` in `audit/s3.go`). Entries wait in a buffer and
are uploaded in batches, one object for each.

Three ways lead out of the books, and no other (`delivered_iff`): an upload replaces an earlier object with its
key, which has a resolution of one second; a batch with an entry that has no JSON form is dropped; and `Close`
sets the flag that makes `Flush` return at once.
-/

namespace Bib.Audit.S3

open Bib.Domain Bib.Lib Bib.Lib.Json Bib.Lib.Calendar List Table

/-! ### Object keys -/

inductive PartitionBy
  | hour
  | day
  | month
  | other (name : String)

/-- `S3ExportConfig`, as far as the exporter reads it. -/
structure S3ExportConfig where
  keyPrefix : Bytes
  batchSize : Int
  compress : Bool
  partitionBy : PartitionBy

/-- One segment of a path onto the stack of those before it. -/
def cleanSegment (rooted : Bool) (stack : List Bytes) (segment : Bytes) : List Bytes :=
  if segment = [] ∨ segment = utf8 "." then stack
  else if segment = utf8 ".." then
    match stack with
    | [] => if rooted then [] else [segment]
    | top :: rest => if top = utf8 ".." then segment :: stack else rest
  else segment :: stack

def pathClean (path : Bytes) : Bytes :=
  let rooted := path.head? = some 0x2f
  let segments := ((path.splitOn 0x2f).foldl (cleanSegment rooted) []).reverse
  let body := List.intercalate [0x2f] segments
  if rooted then 0x2f :: body else if body = [] then utf8 "." else body

def pathJoin (elements : List Bytes) : Bytes :=
  let nonempty := elements.filter (· ≠ [])
  if nonempty = [] then [] else pathClean (List.intercalate [0x2f] nonempty)

/-- The layout `2006/01`. -/
def monthPath (c : Civil) : Text := yearText c.date.year ++ 0x2f :: fixedDigits 2 c.date.month

/-- The layout `2006/01/02`. -/
def dayPath (c : Civil) : Text := monthPath c ++ 0x2f :: fixedDigits 2 c.date.day

/-- The layout `2006/01/02/15`. -/
def hourPath (c : Civil) : Text := dayPath c ++ 0x2f :: fixedDigits 2 c.hour

/-- The layout `20060102T150405Z`. -/
def compactText (c : Civil) : Text :=
  yearText c.date.year ++ fixedDigits 2 c.date.month ++ fixedDigits 2 c.date.day ++
    0x54 :: fixedDigits 2 c.hour ++ fixedDigits 2 c.min ++ fixedDigits 2 c.sec ++ [0x5a]

def S3ExportConfig.generateKey (cfg : S3ExportConfig) (t : Stamp) : Bytes :=
  let partition :=
    match cfg.partitionBy with
    | .hour => hourPath t.civil
    | .day => dayPath t.civil
    | .month => monthPath t.civil
    | .other _ => hourPath t.civil
  let extension := utf8 (if cfg.compress then ".jsonl.gz" else ".jsonl")
  pathJoin [cfg.keyPrefix, partition, utf8 "audit-" ++ compactText t.civil ++ extension]

/-! ### Exporter and bucket -/

/-- What the exporter reads of an entry; without JSON, `json.Marshal` fails. -/
structure EntryView where
  timestamp : Stamp
  nodeID : Bytes
  json : Option Bytes

structure UploadMetadata where
  (entryCount firstEntry lastEntry : Text)
  nodeID : Bytes

/-- An object: the entries whose lines are its body, and how it was uploaded. -/
structure Upload (E : Type) where
  entries : List E
  body : Bytes
  contentType : String
  metadata : UploadMetadata

/-- `S3Exporter`, with the bucket. -/
structure World (E : Type) where
  buffer : List E
  closed : Bool
  lastSync : Int
  bucket : KeyMap Bytes (Upload E)

/-- `NewS3Exporter`, in front of a bucket without objects of its own. -/
def World.new (E : Type) (now : Int) : World E :=
  { buffer := [], closed := false, lastSync := now, bucket := .empty }

/-- What an attempt to flush finds outside: the time, and whether `PutObject` fails. -/
structure FlushIo where
  now : Int
  putFails : Bool

inductive S3Error
  | marshal
  | upload

/-- The text of the error, in front of that of its cause. -/
def S3Error.message : S3Error → String
  | marshal => "failed to marshal entry"
  | upload => "failed to upload to S3"

/-- What the exporter is given: the fields of entries, and `gzip`. -/
structure Env (E : Type) where
  view : E → EntryView
  gzip : Bytes → Bytes

section Exporter

variable {E : Type} (env : Env E) (cfg : S3ExportConfig)

def Env.lines (entries : List E) : Option Bytes :=
  (entries.mapM fun e => (env.view e).json).map fun texts => texts.flatMap fun text => text ++ [0x0a]

def Env.upload (lines : Bytes) (first : E) (rest : List E) : Upload E :=
  { entries := first :: rest
    body := if cfg.compress then env.gzip lines else lines
    contentType := if cfg.compress then "application/gzip" else "application/x-ndjson"
    metadata :=
      { entryCount := natText (first :: rest).length
        firstEntry := (env.view first).timestamp.secondsText
        lastEntry := (env.view ((first :: rest).getLastD first)).timestamp.secondsText
        nodeID := (env.view first).nodeID } }

def flushLocked (io : FlushIo) (w : World E) : Option S3Error × World E :=
  match w.buffer with
  | [] => (none, w)
  | first :: rest =>
    let entries := first :: rest
    let w := { w with buffer := [], lastSync := io.now }
    let key := cfg.generateKey (env.view first).timestamp
    match env.lines entries with
    | none => (some .marshal, w)
    | some lines =>
      if io.putFails then (some .upload, { w with buffer := entries ++ w.buffer })
      else (none, { w with bucket := w.bucket.set key (env.upload cfg lines first rest) })

def World.push (e : E) (w : World E) : World E := { w with buffer := w.buffer ++ [e] }

/-- `Export`. -/
def exportEntry (e : E) (io : FlushIo) (w : World E) : Option S3Error × World E :=
  if w.closed then (none, w)
  else if cfg.batchSize ≤ (w.push e).buffer.length then flushLocked env cfg io (w.push e)
  else (none, w.push e)

def exportAll : List (E × FlushIo) → World E → Option S3Error × World E
  | [], w => (none, w)
  | (e, io) :: entries, w =>
    match exportEntry env cfg e io w with
    | (some err, w) => (some err, w)
    | (none, w) => exportAll entries w

def exportBatch (entries : List (E × FlushIo)) (w : World E) : Option S3Error × World E :=
  if w.closed then (none, w) else exportAll env cfg entries w

def flush (io : FlushIo) (w : World E) : Option S3Error × World E :=
  if w.closed then (none, w) else flushLocked env cfg io w

def close (io : FlushIo) (w : World E) : Option S3Error × World E :=
  if w.closed then (none, w) else flush env cfg io { w with closed := true }

/-! ### Runs -/

/-- A call, with what each attempt to flush in it would find. -/
inductive Call (E : Type)
  | exportEntry (e : E) (io : FlushIo)
  | exportBatch (entries : List (E × FlushIo))
  | flush (io : FlushIo)

def Call.perform (w : World E) : Call E → Option S3Error × World E
  | .exportEntry e io => S3.exportEntry env cfg e io w
  | .exportBatch entries => S3.exportBatch env cfg entries w
  | .flush io => S3.flush env cfg io w

def step (w : World E) (call : Call E) : World E := (call.perform env cfg w).2

/-- The entries that `Export` is called with in a batch: up to the first error. -/
def acceptedAll : List (E × FlushIo) → World E → List E
  | [], _ => []
  | (e, io) :: entries, w =>
    match exportEntry env cfg e io w with
    | (some _, _) => [e]
    | (none, w) => e :: acceptedAll entries w

/-- The entries whose `Export` returns from this call while the exporter is not closed. -/
def Call.accepted (w : World E) : Call E → List E
  | .exportEntry e _ => if w.closed then [] else [e]
  | .exportBatch entries => if w.closed then [] else acceptedAll env cfg entries w
  | .flush _ => []

def accepted : World E → List (Call E) → List E
  | _, [] => []
  | w, call :: calls => call.accepted env cfg w ++ accepted (step env cfg w call) calls

def World.inBucket (w : World E) : List E := w.bucket.rows.flatMap fun row => row.2.entries

/-- Every accepted entry is in the bucket as often as it was accepted, and nothing else is. -/
def Delivered (w : World E) (entries : List E) : Prop := w.inBucket.Perm entries

/-! ### The condition -/

/-- An attempt to flush loses nothing: every entry has a JSON form, and an upload that succeeds finds no
object under its key. -/
def FlushSafe (io : FlushIo) (w : World E) : Prop :=
  ∀ first rest, w.buffer = first :: rest →
    (∀ e ∈ w.buffer, (env.view e).json ≠ none) ∧
      (io.putFails = false → w.bucket.get? (cfg.generateKey (env.view first).timestamp) = none)

/-- The same for the attempt that `Export` may make. -/
def ExportSafe (e : E) (io : FlushIo) (w : World E) : Prop :=
  cfg.batchSize ≤ (w.push e).buffer.length → FlushSafe env cfg io (w.push e)

def BatchSafe : List (E × FlushIo) → World E → Prop
  | [], _ => True
  | (e, io) :: entries, w =>
    ExportSafe env cfg e io w ∧
      ((exportEntry env cfg e io w).1 = none → BatchSafe entries (exportEntry env cfg e io w).2)

def Safe (w : World E) : Call E → Prop
  | .exportEntry e io => ExportSafe env cfg e io w
  | .exportBatch entries => BatchSafe env cfg entries w
  | .flush io => FlushSafe env cfg io w

/-! ### The books -/

def World.stored (w : World E) : List E := w.inBucket ++ w.buffer

structure World.Open (w : World E) : Prop where
  not_closed : w.closed = false
  entries_ne_nil : ∀ row ∈ w.bucket.rows, row.2.entries ≠ []

variable {env cfg} {w : World E} {io : FlushIo}

theorem mapM_json_eq_none_iff (entries : List E) :
    (entries.mapM fun e => (env.view e).json) = none ↔ ∃ e ∈ entries, (env.view e).json = none := by
  induction entries with
  | nil => simp
  | cons e entries ih =>
    rw [mapM_cons]
    cases hj : (env.view e).json with
    | none => simp [hj]
    | some text =>
      cases hrest : entries.mapM fun e => (env.view e).json with
      | none =>
        rw [hrest] at ih
        obtain ⟨e', he', hnone⟩ := ih.mp rfl
        simp only [Option.bind_eq_bind, Option.bind_some, Option.bind_none, true_iff]
        exact ⟨e', mem_cons_of_mem _ he', hnone⟩
      | some texts =>
        rw [hrest] at ih
        simp only [Option.bind_eq_bind, Option.bind_some, Option.pure_def, reduceCtorEq, false_iff]
        rintro ⟨e', he', hnone⟩
        rcases mem_cons.mp he' with rfl | he'
        · rw [hj] at hnone
          cases hnone
        · exact absurd (ih.mpr ⟨e', he', hnone⟩) (by simp)

theorem lines_eq_none_iff (entries : List E) :
    env.lines entries = none ↔ ∃ e ∈ entries, (env.view e).json = none := by
  rw [Env.lines, Option.map_eq_none_iff, mapM_json_eq_none_iff]

variable {m : KeyMap Bytes (Upload E)} {key : Bytes} {before : List E} {safe safe' : Prop} {w' : World E}

theorem inBucket_set_new (h : m.get? key = none) (upload : Upload E) :
    ((m.set key upload).rows.flatMap fun row => row.2.entries).Perm
      (upload.entries ++ m.rows.flatMap fun row => row.2.entries) := by
  have hf : m.find? key = none := Option.map_eq_none_iff.mp h
  have hput : (put m (key, upload)).rows.Perm ((key, upload) :: m.rows) := perm_put_of_find?_eq_none hf
  simpa [KeyMap.set] using hput.flatMap_right fun row => row.2.entries

theorem inBucket_set_old {old : Upload E} (h : m.get? key = some old) (upload : Upload E) :
    (old.entries ++ (m.set key upload).rows.flatMap fun row => row.2.entries).Perm
      (upload.entries ++ m.rows.flatMap fun row => row.2.entries) := by
  have hf : m.find? key = some (key, old) := mem_rows_iff.mp (KeyMap.get?_eq_some_iff.mp h)
  have hput : ((key, old) :: (put m (key, upload)).rows).Perm ((key, upload) :: m.rows) :=
    perm_put_of_find? hf
  simpa [KeyMap.set] using hput.flatMap_right fun row => row.2.entries

/-- What came before is what comes after and what has been lost, and nothing has been lost exactly if the
condition holds. -/
structure Books (before : List E) (w' : World E) (safe : Prop) : Prop where
  balance : ∃ lost, before.Perm (w'.stored ++ lost) ∧ (lost = [] ↔ safe)
  isOpen : w'.Open

theorem Books.of_perm (hp : before.Perm w.stored) (hs : safe) (ho : w.Open) : Books before w safe where
  balance := ⟨[], by simpa using hp, by simpa using hs⟩
  isOpen := ho

/-- What an attempt to flush does: nothing, lose the batch, put it back, or upload it. -/
inductive Flushed (env : Env E) (cfg : S3ExportConfig) (io : FlushIo) (w : World E) :
    World E → Prop
  | idle : w.buffer = [] → Flushed env cfg io w w
  | dropped (e : E) : e ∈ w.buffer → (env.view e).json = none →
      Flushed env cfg io w { w with buffer := [], lastSync := io.now }
  | putBack : (∀ e ∈ w.buffer, (env.view e).json ≠ none) → io.putFails = true →
      Flushed env cfg io w { w with lastSync := io.now }
  | uploaded (first : E) (rest : List E) (upload : Upload E) : w.buffer = first :: rest →
      (∀ e ∈ w.buffer, (env.view e).json ≠ none) → io.putFails = false →
      upload.entries = w.buffer →
      Flushed env cfg io w
        { w with
          buffer := []
          lastSync := io.now
          bucket := w.bucket.set (cfg.generateKey (env.view first).timestamp) upload }

variable (env cfg) in
theorem flushLocked_flushed (io : FlushIo) (w : World E) : Flushed env cfg io w (flushLocked env cfg io w).2 := by
  obtain ⟨buffer, closed, lastSync, bucket⟩ := w
  cases buffer with
  | nil => exact .idle rfl
  | cons first rest =>
    cases hl : env.lines (first :: rest) with
    | none =>
      obtain ⟨e, he, hj⟩ := (lines_eq_none_iff _).mp hl
      simp only [flushLocked, hl]
      exact .dropped e he hj
    | some lines =>
      have hj : ∀ e ∈ first :: rest, (env.view e).json ≠ none := by
        intro e he hnone
        rw [(lines_eq_none_iff _).mpr ⟨e, he, hnone⟩] at hl
        cases hl
      cases hf : io.putFails with
      | true =>
        simp only [flushLocked, hl, hf, if_true, append_nil]
        exact .putBack hj hf
      | false =>
        simp only [flushLocked, hl, hf, Bool.false_eq_true, if_false]
        exact .uploaded first rest _ rfl hj hf rfl

theorem Flushed.books (h : Flushed env cfg io w w') (hw : w.Open) : Books w.stored w' (FlushSafe env cfg io w) := by
  cases h with
  | idle hn =>
    refine .of_perm (.refl _) ?_ hw
    intro first rest hc
    rw [hn] at hc
    cases hc
  | dropped e he hj =>
    refine ⟨⟨w.buffer, by simp [World.stored, World.inBucket], ?_⟩, hw.not_closed, hw.entries_ne_nil⟩
    constructor
    · intro hn
      rw [hn] at he
      cases he
    · intro hsa
      cases hb : w.buffer with
      | nil => rfl
      | cons first rest => exact absurd hj ((hsa first rest hb).1 e he)
  | putBack hj hf =>
    refine .of_perm (.refl _) ?_ ⟨hw.not_closed, hw.entries_ne_nil⟩
    intro first rest _
    refine ⟨hj, fun hok => ?_⟩
    rw [hf] at hok
    cases hok
  | uploaded first rest upload hc hj hok hen =>
    have hne : upload.entries ≠ [] := by
      rw [hen, hc]
      exact cons_ne_nil _ _
    have ho : World.Open { w with
        buffer := []
        lastSync := io.now
        bucket := w.bucket.set (cfg.generateKey (env.view first).timestamp) upload } := by
      refine ⟨hw.not_closed, ?_⟩
      intro row hrow
      rcases mem_put.mp hrow with rfl | ⟨hrow, -⟩
      · exact hne
      · exact hw.entries_ne_nil row hrow
    have hsa : FlushSafe env cfg io w ↔
        w.bucket.get? (cfg.generateKey (env.view first).timestamp) = none := by
      constructor
      · intro hsa
        exact (hsa first rest hc).2 hok
      · intro hnone first' rest' hc'
        rw [hc] at hc'
        cases hc'
        exact ⟨hj, fun _ => hnone⟩
    rw [hsa]
    cases hg : w.bucket.get? (cfg.generateKey (env.view first).timestamp) with
    | none =>
      refine .of_perm ?_ rfl ho
      have hs := inBucket_set_new hg upload
      rw [hen] at hs
      simp only [World.stored, World.inBucket, append_nil]
      exact perm_append_comm.trans hs.symm
    | some old =>
      have hold : old.entries ≠ [] := hw.entries_ne_nil _ (KeyMap.get?_eq_some_iff.mp hg)
      refine ⟨⟨old.entries, ?_, by simp [hold]⟩, ho⟩
      have hs := inBucket_set_old hg upload
      rw [hen] at hs
      simp only [World.stored, World.inBucket, append_nil]
      exact (perm_append_comm.trans hs.symm).trans perm_append_comm

theorem Books.trans {more : List E}
    (h : Books before w safe) (h' : Books (w.stored ++ more) w' safe') :
    Books (before ++ more) w' (safe ∧ safe') := by
  obtain ⟨⟨lost, hp, hl⟩, -⟩ := h
  obtain ⟨⟨lost', hp', hl'⟩, ho⟩ := h'
  refine ⟨⟨lost' ++ lost, ?_, ?_⟩, ho⟩
  · calc (before ++ more).Perm (w.stored ++ lost ++ more) := hp.append_right more
      _ |>.Perm (w.stored ++ more ++ lost) := by
        rw [append_assoc, append_assoc]
        exact perm_append_comm.append_left _
      _ |>.Perm (w'.stored ++ lost' ++ lost) := hp'.append_right lost
      _ |>.Perm (w'.stored ++ (lost' ++ lost)) := by rw [append_assoc]
  · rw [append_eq_nil_iff, hl, hl', and_comm]

theorem Books.congr (h : Books before w safe) (hi : safe ↔ safe') : Books before w safe' := by
  rwa [← propext hi]

theorem stored_push (e : E) (w : World E) : (w.push e).stored = w.stored ++ [e] := by
  simp [World.stored, World.push, World.inBucket]

variable (env cfg)

theorem exportEntry_books (e : E) (io : FlushIo) (hw : w.Open) :
    Books (w.stored ++ [e]) (exportEntry env cfg e io w).2 (ExportSafe env cfg e io w) := by
  have ho : (w.push e).Open := ⟨hw.not_closed, hw.entries_ne_nil⟩
  rw [← stored_push, exportEntry, hw.not_closed]
  simp only [Bool.false_eq_true, if_false, ExportSafe]
  split
  next hf =>
    refine ((flushLocked_flushed env cfg io _).books ho).congr ?_
    exact ⟨fun hs _ => hs, fun hs => hs hf⟩
  next hroom => exact .of_perm (.refl _) (fun hf => absurd hf hroom) ho

theorem exportAll_books (entries : List (E × FlushIo)) (hw : w.Open) :
    Books (w.stored ++ acceptedAll env cfg entries w) (exportAll env cfg entries w).2
      (BatchSafe env cfg entries w) := by
  induction entries generalizing w with
  | nil => exact .of_perm (by simp [acceptedAll, exportAll]) trivial hw
  | cons entry entries ih =>
    obtain ⟨e, io⟩ := entry
    have he := exportEntry_books env cfg e io hw
    rw [acceptedAll, exportAll, BatchSafe]
    cases hr : exportEntry env cfg e io w with
    | mk err w' =>
      rw [hr] at he
      cases err with
      | some err => exact he.congr (by simp)
      | none =>
        have hall := he.trans (ih he.isOpen)
        rw [append_assoc] at hall
        exact hall.congr (by simp)

theorem call_books (call : Call E) (hw : w.Open) :
    Books (w.stored ++ call.accepted env cfg w) (step env cfg w call) (Safe env cfg w call) := by
  cases call with
  | exportEntry e io =>
    have hb := exportEntry_books env cfg e io hw
    simpa [Call.accepted, Safe, step, Call.perform, hw.not_closed] using hb
  | exportBatch entries =>
    have hb := exportAll_books env cfg entries hw
    simpa [Call.accepted, Safe, step, Call.perform, exportBatch, hw.not_closed] using hb
  | flush io =>
    have hb := (flushLocked_flushed env cfg io w).books hw
    simpa [Call.accepted, Safe, step, Call.perform, flush, hw.not_closed] using hb

theorem run_books (calls : List (Call E)) (hw : w.Open) :
    Books (w.stored ++ accepted env cfg w calls) (calls.foldl (step env cfg) w)
      (Run.AllSteps (step env cfg) (Safe env cfg) w calls) := by
  induction calls generalizing w with
  | nil => exact .of_perm (by simp [accepted]) trivial hw
  | cons call calls ih =>
    have hcall := call_books env cfg call hw
    have hall := hcall.trans (ih hcall.isOpen)
    rwa [append_assoc] at hall

end Exporter

/-- **Nothing is invented or kept twice**: bucket and buffer have an entry at most as often as it was accepted. -/
theorem stored_subperm_accepted {E : Type} (env : Env E) (cfg : S3ExportConfig) (now : Int) (calls : List (Call E)) :
    (calls.foldl (step env cfg) (.new E now)).stored <+~ accepted env cfg (.new E now) calls := by
  have hnew : (World.new E now).Open := ⟨rfl, by simp [World.new, empty]⟩
  obtain ⟨⟨lost, hp, -⟩, -⟩ := run_books env cfg calls hnew
  exact (sublist_append_left _ lost).subperm.trans hp.symm.subperm

/-- **Which runs deliver every entry.** After any calls on a new exporter and `Close`, every accepted
entry is in the bucket exactly once for each time it was accepted, exactly if no attempt to flush lost
anything and the buffer was empty when `Close` was called. -/
theorem delivered_iff {E : Type} (env : Env E) (cfg : S3ExportConfig) (now : Int)
    (calls : List (Call E)) (io : FlushIo) :
    ((close env cfg io (calls.foldl (step env cfg) (.new E now))).1 = none →
        Delivered (close env cfg io (calls.foldl (step env cfg) (.new E now))).2
          (accepted env cfg (.new E now) calls)) ↔
      Run.AllSteps (step env cfg) (Safe env cfg) (.new E now) calls ∧
        (calls.foldl (step env cfg) (.new E now)).buffer = [] := by
  have hnew : (World.new E now).Open := ⟨rfl, by simp [World.new, empty]⟩
  obtain ⟨⟨lost, hp, hlo⟩, ho⟩ := run_books env cfg calls hnew
  simp only [close, flush, ho.not_closed, Bool.false_eq_true, if_false]
  rw [← hlo]
  generalize calls.foldl (step env cfg) (.new E now) = w at hp
  have hn : (World.new E now).stored = [] := rfl
  rw [hn] at hp
  show (none = none → w.inBucket.Perm _) ↔ _
  constructor
  · intro hd
    have hl := (hd rfl).length_eq.trans hp.length_eq
    rw [World.stored, length_append, length_append] at hl
    constructor
    · exact length_eq_zero_iff.mp (by omega)
    · exact length_eq_zero_iff.mp (by omega)
  · rintro ⟨rfl, hb⟩ -
    rw [append_nil, World.stored, hb, append_nil] at hp
    exact hp.symm

/-! ### Entries that are lost -/

def sameSecond : Env Nat where
  view _ := { timestamp := ⟨0, 0⟩, nodeID := utf8 "node", json := some [0x7b, 0x7d] }
  gzip body := body

def batches (size : Int) : S3ExportConfig :=
  { keyPrefix := utf8 "audit/", batchSize := size, compress := false, partitionBy := .hour }

def uploads : FlushIo := { now := 0, putFails := false }

def afterClose (cfg : S3ExportConfig) (calls : List (Call Nat)) : Bool × List Nat :=
  let result := close sameSecond cfg uploads (calls.foldl (step sameSecond cfg) (.new Nat 0))
  (result.1.isNone, result.2.inBucket)

/-- An entry that waits in the buffer when `Close` is called is not uploaded, and `Close` returns nil.
Of two batches of one second only the second stays in the bucket. -/
theorem entries_lost : afterClose (batches 2) [.exportEntry 1 uploads] = (true, []) ∧
      afterClose (batches 1) [.exportEntry 1 uploads, .exportEntry 2 uploads] = (true, [2]) := by
  decide +kernel

end Bib.Audit.S3
