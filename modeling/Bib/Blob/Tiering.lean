import Bib.Blob.Hybrid
import Bib.Blob.RefCount

/-!
# Bib.Blob.Tiering

**Moves between the tiers lose nothing.** A hash names one content, so that every copy of a blob in the run has
the same bytes. What a step can do to the copies of one blob is said once (`Move`): a copy with these bytes is
made in a tier, or the hot copy goes when there is a cold one. `Call.Sound` is what a call has to know for that,
and it is kept by the steps of all the others.
-/

namespace Bib.Blob.Hybrid

open Bib.Lib Bib.Domain List
open Option (some_ne_none)

/-! ### Moves of one blob -/

/-- What a step does to the copies of a blob with the given bytes. -/
inductive Move (data : Bytes) : Copies → Copies → Prop
  | stay (copies : Copies) : Move data copies copies
  | toHot (cold : Option Bytes) : Move data ⟨none, cold⟩ ⟨some data, cold⟩
  | toCold (hot : Option Bytes) : Move data ⟨hot, none⟩ ⟨hot, some data⟩
  | drop (hot : Option Bytes) (cold : Bytes) : Move data ⟨hot, some cold⟩ ⟨none, some cold⟩

/-- No copy has other bytes. -/
structure Copies.Only (data : Bytes) (copies : Copies) : Prop where
  hot : ∀ other, copies.hot = some other → other = data
  cold : ∀ other, copies.cold = some other → other = data

/-- The blob is in a tier. -/
def Copies.Present (copies : Copies) : Prop := copies.hot ≠ none ∨ copies.cold ≠ none

section Copies

variable {copies copies' : Copies} {data : Bytes}

theorem Copies.Only.move (h : copies.Only data) (hmove : Move data copies copies') : copies'.Only data := by
  cases hmove with
  | stay => exact h
  | toHot cold => exact ⟨fun other hother => (Option.some.inj hother).symm, h.cold⟩
  | toCold hot => exact ⟨h.hot, fun other hother => (Option.some.inj hother).symm⟩
  | drop hot cold =>
    refine ⟨fun other hother => ?_, h.cold⟩
    cases hother

/-- The cold copy never goes. -/
theorem Move.cold_ne_none (hmove : Move data copies copies') (h : copies.cold ≠ none) : copies'.cold ≠ none := by
  cases hmove with
  | toCold hot => exact absurd rfl h
  | _ => exact h

/-- The hot copy only goes when there is a cold one. -/
theorem Move.present (hmove : Move data copies copies') (h : copies.Present) : copies'.Present := by
  cases hmove with
  | stay => exact h
  | toHot cold => exact .inl (some_ne_none data)
  | toCold hot => exact .inr (some_ne_none data)
  | drop hot cold => exact .inr (some_ne_none cold)

theorem Copies.Only.eq_of_present (h : copies.Only data) (hp : copies.Present) :
    copies.hot = some data ∨ copies.cold = some data := by
  rcases hp with hh | hc
  · obtain ⟨other, hother⟩ := Option.ne_none_iff_exists'.mp hh
    rw [← h.hot other hother]
    exact .inl hother
  · obtain ⟨other, hother⟩ := Option.ne_none_iff_exists'.mp hc
    rw [← h.cold other hother]
    exact .inr hother

end Copies

/-! ### What calls know -/

/-- What a `CoolDown` knows: what it copies are the bytes of the blob, and before it deletes the hot
copy there is a cold one. -/
def Cool.Sound (data : Bytes) (copies : Copies) : Cool → Prop
  | .hotMetadata held | .coldPut held _ => held = data
  | .hotDelete => copies.cold ≠ none
  | _ => True

/-- What a `WarmUp` knows: what it copies are the bytes of the blob. -/
def Warm.Sound (data : Bytes) : Warm → Prop
  | .coldMetadata held | .hotPut held _ => held = data
  | _ => True

/-- What a call knows about the blob of a hash. -/
def Call.Sound (hash : String) (data : Bytes) (copies : Copies) : Call → Prop
  | .put hash' held _ => hash' = hash → held = data
  | .stored hash' held => hash' = hash → held = data ∧ copies.Present
  | .warming hash' _ warm => hash' = hash → warm.Sound data
  | .cooling hash' cool => hash' = hash → cool.Sound data copies
  | .lru _ _ blob _ cool | .age _ blob _ cool => blob.hash = hash → cool.Sound data copies
  | _ => True

section Sound

variable {data : Bytes} {copies copies' : Copies}

theorem Cool.Sound.move {cool : Cool} (h : cool.Sound data copies)
    (hmove : Move data copies copies') : cool.Sound data copies' := by
  cases cool with
  | hotDelete => exact hmove.cold_ne_none h
  | _ => exact h

theorem Call.Sound.move {hash : String} {call : Call} (h : call.Sound hash data copies)
    (hmove : Move data copies copies') : call.Sound hash data copies' := by
  cases call with
  | stored hash' held => exact fun heq => ⟨(h heq).1, hmove.present (h heq).2⟩
  | cooling hash' cool => exact fun heq => (h heq).move hmove
  | lru bytesToFree freedBytes blob blobs cool => exact fun heq => (h heq).move hmove
  | age cutoffTime blob blobs cool => exact fun heq => (h heq).move hmove
  | _ => exact h

end Sound

/-! ### What a step does to the copies -/

namespace HybridStore

variable {σ τ : Type} (s : HybridStore σ τ) {input : Input} {hash hash' : String} {data : Bytes}
  {metadata : Metadata} {tiers tiers' : Tiers σ τ} {result : Except StoreError Bytes} {hot : σ}
  {cold : τ} {known known' : Copies → Prop}

theorem copies_hotGet (h : s.hot.get input hash tiers.hot = (result, hot)) (hash' : String) :
    s.copies { tiers with hot } hash' = s.copies tiers hash' := by
  have hcopy := s.hot.copy_get input hash tiers.hot hash'
  rw [h] at hcopy
  rw [copies, copies, hcopy]

theorem copies_coldGet (h : s.cold.get input hash tiers.cold = (result, cold)) (hash' : String) :
    s.copies { tiers with cold } hash' = s.copies tiers hash' := by
  have hcopy := s.cold.copy_get input hash tiers.cold hash'
  rw [h] at hcopy
  rw [copies, copies, hcopy]

theorem copies_hotPut (h : s.hot.put input hash data metadata tiers.hot = .ok hot) :
    s.copies { tiers with hot } hash' =
      if hash' = hash then { s.copies tiers hash' with hot := some data } else s.copies tiers hash' := by
  rw [copies, s.hot.copy_put _ _ _ _ _ _ h]
  split <;> rfl

theorem copies_coldPut (h : s.cold.put input hash data metadata tiers.cold = .ok cold) :
    s.copies { tiers with cold } hash' =
      if hash' = hash then { s.copies tiers hash' with cold := some data }
      else s.copies tiers hash' := by
  rw [copies, s.cold.copy_put _ _ _ _ _ _ h]
  split <;> rfl

theorem copies_hotDelete (h : s.hot.delete input hash tiers.hot = .ok hot) :
    s.copies { tiers with hot } hash' =
      if hash' = hash then { s.copies tiers hash' with hot := none } else s.copies tiers hash' := by
  rw [copies, s.hot.copy_delete _ _ _ _ h]
  split <;> rfl

theorem copies_coldDelete (h : s.cold.delete input hash tiers.cold = .ok cold) :
    s.copies { tiers with cold } hash' =
      if hash' = hash then { s.copies tiers hash' with cold := none } else s.copies tiers hash' := by
  rw [copies, s.cold.copy_delete _ _ _ _ h]
  split <;> rfl

theorem move_hotPut (h : s.hot.put input hash data metadata tiers.hot = .ok hot) :
    Move data (s.copies tiers hash) (s.copies { tiers with hot } hash) := by
  have hnone : (s.copies tiers hash).hot = none := s.hot.copy_of_put _ _ _ _ _ _ h
  rw [s.copies_hotPut h, if_pos rfl]
  generalize s.copies tiers hash = copies at hnone
  obtain ⟨hot, cold⟩ := copies
  cases hnone
  exact .toHot cold

theorem move_coldPut (h : s.cold.put input hash data metadata tiers.cold = .ok cold) :
    Move data (s.copies tiers hash) (s.copies { tiers with cold } hash) := by
  have hnone : (s.copies tiers hash).cold = none := s.cold.copy_of_put _ _ _ _ _ _ h
  rw [s.copies_coldPut h, if_pos rfl]
  generalize s.copies tiers hash = copies at hnone
  obtain ⟨hot, cold⟩ := copies
  cases hnone
  exact .toCold hot

theorem move_hotDelete (h : s.hot.delete input hash tiers.hot = .ok hot)
    (hknown : (s.copies tiers hash).cold ≠ none) :
    Move data (s.copies tiers hash) (s.copies { tiers with hot } hash) := by
  rw [s.copies_hotDelete h, if_pos rfl]
  generalize s.copies tiers hash = copies at hknown
  obtain ⟨hot, cold⟩ := copies
  obtain ⟨old, hold⟩ := Option.ne_none_iff_exists'.mp hknown
  cases hold
  exact .drop hot old

/-- A step on behalf of a hash: it leaves the copies of the others, and if the call knew what it
should it makes a move of the blob and then knows what it should. -/
structure Acts (data : Bytes) (hash : String) (tiers tiers' : Tiers σ τ)
    (known known' : Copies → Prop) : Prop where
  frame : ∀ hash', hash' ≠ hash → s.copies tiers' hash' = s.copies tiers hash'
  move : (s.copies tiers hash).Only data → known (s.copies tiers hash) →
    Move data (s.copies tiers hash) (s.copies tiers' hash) ∧ known' (s.copies tiers' hash)

theorem Acts.of_same (h : ∀ hash', s.copies tiers' hash' = s.copies tiers hash')
    (hknown : (s.copies tiers hash).Only data → known (s.copies tiers hash) →
      known' (s.copies tiers hash)) :
    s.Acts data hash tiers tiers' known known' := by
  refine ⟨fun hash' _ => h hash', fun honly hk => ?_⟩
  rw [h]
  exact ⟨.stay _, hknown honly hk⟩

theorem Acts.rest : s.Acts data hash tiers tiers known fun _ => True :=
  .of_same s (fun _ => rfl) fun _ _ => trivial

theorem coolStep_acts (input : Input) (hash : String) (cool : Cool) (tiers : Tiers σ τ) :
    s.Acts data hash tiers (s.coolStep input hash cool tiers).2 (Cool.Sound data · cool)
      (Cool.Sound data · (s.coolStep input hash cool tiers).1) := by
  cases cool with
  | hotExists =>
    rw [coolStep]
    split <;> exact .rest s
  | coldExists =>
    rw [coolStep]
    split
    next hexists =>
      exact .of_same s (fun _ => rfl) fun _ _ => s.cold.copy_of_existsBlob _ _ _ hexists
    · exact .rest s
  | hotGet =>
    rw [coolStep]
    split
    next held hot hg =>
      have hcopy : s.hot.copy tiers.hot hash = some held :=
        s.hot.copy_of_get input hash tiers.hot held (by rw [hg])
      exact .of_same s (s.copies_hotGet hg) fun honly _ => honly.hot held hcopy
    next error hot hg => exact .of_same s (s.copies_hotGet hg) fun _ _ => trivial
  | hotMetadata held =>
    rw [coolStep]
    split
    · exact .of_same s (fun _ => rfl) fun _ hknown => hknown
    · exact .rest s
  | coldPut held metadata =>
    rw [coolStep]
    split
    next cold hput =>
      refine ⟨fun hash' hne => ?_, fun _ hknown => ?_⟩
      · rw [s.copies_coldPut hput, if_neg hne]
      · obtain rfl : held = data := hknown
        refine ⟨s.move_coldPut hput, ?_⟩
        show (s.copies { tiers with cold } hash).cold ≠ none
        rw [s.copies_coldPut hput, if_pos rfl]
        exact some_ne_none held
    · exact .rest s
  | hotDelete =>
    rw [coolStep]
    split
    next hot hdelete =>
      refine ⟨fun hash' hne => ?_, fun _ hknown => ⟨s.move_hotDelete hdelete hknown, trivial⟩⟩
      rw [s.copies_hotDelete hdelete, if_neg hne]
    · exact .rest s
  | returned result => exact .rest s

theorem warmStep_acts (input : Input) (hash : String) (warm : Warm) (tiers : Tiers σ τ) :
    s.Acts data hash tiers (s.warmStep input hash warm tiers).2 (fun _ => warm.Sound data)
      fun _ => (s.warmStep input hash warm tiers).1.Sound data := by
  cases warm with
  | coldGet =>
    rw [warmStep]
    split
    next held cold hg =>
      have hcopy : s.cold.copy tiers.cold hash = some held :=
        s.cold.copy_of_get input hash tiers.cold held (by rw [hg])
      exact .of_same s (s.copies_coldGet hg) fun honly _ => honly.cold held hcopy
    next error cold hg => exact .of_same s (s.copies_coldGet hg) fun _ _ => trivial
  | coldMetadata held =>
    rw [warmStep]
    split
    · exact .of_same s (fun _ => rfl) fun _ hknown => hknown
    · exact .rest s
  | hotPut held metadata =>
    rw [warmStep]
    split
    next hot hput =>
      refine ⟨fun hash' hne => ?_, fun _ hknown => ?_⟩
      · rw [s.copies_hotPut hput, if_neg hne]
      · obtain rfl : held = data := hknown
        exact ⟨s.move_hotPut hput, trivial⟩
    · exact .rest s
  | returned result => exact .rest s
  | _ =>
    rw [warmStep]
    split <;> exact .rest s

/-- What a step on behalf of one hash does to the blob of any. -/
theorem Acts.at (h : s.Acts data hash' tiers tiers' known known') (honly : (s.copies tiers hash).Only data)
    (hknown : hash' = hash → known (s.copies tiers hash)) :
    Move data (s.copies tiers hash) (s.copies tiers' hash) ∧
      (hash' = hash → known' (s.copies tiers' hash)) := by
  by_cases heq : hash' = hash
  · subst heq
    obtain ⟨hmove, hk'⟩ := h.move honly (hknown rfl)
    exact ⟨hmove, fun _ => hk'⟩
  · rw [h.frame hash (Ne.symm heq)]
    exact ⟨.stay _, fun heq' => absurd heq' heq⟩

theorem sound_lruNext (bytesToFree freedBytes : Int64) (blobs : List BlobInfo) (hash : String)
    (data : Bytes) (copies : Copies) : (lruNext bytesToFree freedBytes blobs).Sound hash data copies := by
  cases blobs with
  | nil => trivial
  | cons blob blobs =>
    rw [lruNext]
    split
    · trivial
    · exact fun _ => trivial

theorem sound_ageNext (cutoffTime : Time) (blobs : List BlobInfo) (hash : String) (data : Bytes)
    (copies : Copies) : (ageNext cutoffTime blobs).Sound hash data copies := by
  induction blobs with
  | nil => trivial
  | cons blob blobs ih =>
    rw [ageNext]
    split
    · exact fun _ => trivial
    · exact ih

/-- A step of a call makes a move of every blob that it does not delete, and then the call still
knows what it should. -/
theorem callStep_move (input : Input) {call : Call} (honly : (s.copies tiers hash).Only data)
    (hsound : call.Sound hash data (s.copies tiers hash)) (hdelete : call.deletes ≠ some hash) :
    Move data (s.copies tiers hash) (s.copies (s.callStep input call tiers).2 hash) ∧
      (s.callStep input call tiers).1.Sound hash data
        (s.copies (s.callStep input call tiers).2 hash) := by
  cases call with
  | put hash' held metadata =>
    rw [callStep]
    split
    next hot hok =>
      by_cases heq : hash' = hash
      · subst heq
        obtain rfl : held = data := hsound rfl
        refine ⟨s.move_hotPut hok, fun _ => ⟨rfl, .inl ?_⟩⟩
        rw [s.copies_hotPut hok, if_pos rfl]
        exact some_ne_none held
      · rw [s.copies_hotPut hok, if_neg (Ne.symm heq)]
        exact ⟨.stay _, fun heq' => absurd heq' heq⟩
    · exact ⟨.stay _, trivial⟩
  | getHot hash' =>
    rw [callStep]
    split <;>
    · rename_i hg
      rw [s.copies_hotGet hg]
      exact ⟨.stay _, trivial⟩
  | getCold hash' =>
    rw [callStep]
    split
    next data cold hg =>
      rw [s.copies_coldGet hg]
      exact ⟨.stay _, fun _ => trivial⟩
    next error cold hg =>
      rw [s.copies_coldGet hg]
      exact ⟨.stay _, trivial⟩
  | warming hash' reader warm => exact (s.warmStep_acts input hash' warm tiers).at s honly hsound
  | cooling hash' cool => exact (s.coolStep_acts input hash' cool tiers).at s honly hsound
  | deletingHot hash' =>
    have hne : hash ≠ hash' := fun heq => hdelete (congrArg some heq.symm)
    rw [callStep]
    split
    next hot hok =>
      rw [s.copies_hotDelete hok, if_neg hne]
      exact ⟨.stay _, trivial⟩
    · exact ⟨.stay _, trivial⟩
  | deletingCold hash' hotError =>
    have hne : hash ≠ hash' := fun heq => hdelete (congrArg some heq.symm)
    cases hok : s.cold.delete input hash' tiers.cold with
    | ok cold =>
      simp only [callStep, hok]
      rw [s.copies_coldDelete hok, if_neg hne]
      exact ⟨.stay _, trivial⟩
    | error coldError =>
      cases hotError <;>
      · simp only [callStep, hok]
        exact ⟨.stay _, trivial⟩
  | lru bytesToFree freedBytes blob blobs cool =>
    obtain ⟨hmove, hknown⟩ := (s.coolStep_acts input blob.hash cool tiers).at s honly hsound
    rw [callStep]
    split
    · exact ⟨hmove, sound_lruNext _ _ _ _ _ _⟩
    · exact ⟨hmove, sound_lruNext _ _ _ _ _ _⟩
    · exact ⟨hmove, hknown⟩
  | age cutoffTime blob blobs cool =>
    obtain ⟨hmove, hknown⟩ := (s.coolStep_acts input blob.hash cool tiers).at s honly hsound
    rw [callStep]
    split
    · exact ⟨hmove, sound_ageNext _ _ _ _ _⟩
    · exact ⟨hmove, hknown⟩
  | lruStats =>
    rw [callStep]
    split
    · exact ⟨.stay _, trivial⟩
    · dsimp only
      split <;> exact ⟨.stay _, trivial⟩
  | lruList bytesToFree =>
    rw [callStep]
    split
    · exact ⟨.stay _, trivial⟩
    · exact ⟨.stay _, sound_lruNext _ _ _ _ _ _⟩
  | ageList =>
    rw [callStep]
    split
    · exact ⟨.stay _, trivial⟩
    · exact ⟨.stay _, sound_ageNext _ _ _ _ _⟩
  | stored hash' data => exact ⟨.stay _, hsound⟩
  | _ => exact ⟨.stay _, trivial⟩

end HybridStore

/-! ### Runs -/

section Runs

variable {σ τ : Type} (s : HybridStore σ τ) {w : Calls.World (Tiers σ τ) Call}
  {event : Calls.Event Request Input}

theorem deletes_callStep (input : Input) (call : Call) (tiers : Tiers σ τ) {hash : String}
    (h : call.deletes = some hash) : (s.callStep input call tiers).1.deletes = some hash := by
  cases call with
  | deletingHot hash' =>
    rw [HybridStore.callStep]
    split <;> exact h
  | deletingCold hash' hotError =>
    unfold HybridStore.callStep
    dsimp only
    split <;> exact h
  | deleted hash' result => exact h
  | _ => cases h

variable {hash : String}

theorem deleteCalled_next (h : DeleteCalled hash w.calls) : DeleteCalled hash (s.machine.next w event).calls :=
  s.machine.exists_calls_next (fun call => call.deletes = some hash)
    (fun input call tiers => deletes_callStep s input call tiers) h

/-- Until a blob is deleted, the tiers hold nothing else for its hash and every call knows what it
should. -/
def Invariant (hash : String) (data : Bytes) (w : Calls.World (Tiers σ τ) Call) : Prop :=
  ¬ DeleteCalled hash w.calls → (s.copies w.shared hash).Only data ∧
    ∀ call ∈ w.calls, call.Sound hash data (s.copies w.shared hash)

theorem sound_init (request : Request) (copies : Copies) {data : Bytes}
    (hput : ∀ held metadata, request = .put hash held metadata → held = data) :
    (s.machine.init request).Sound hash data copies := by
  cases request with
  | put hash' held metadata =>
    rintro rfl
    exact hput held metadata rfl
  | applyTieringPolicy =>
    show s.applyTieringPolicy.Sound hash data copies
    rw [HybridStore.applyTieringPolicy]
    split
    · split <;> trivial
    · trivial
  | coolDown hash' => exact fun _ => trivial
  | warmUp hash' => exact fun _ => trivial
  | _ => trivial

/-- A step keeps the invariant, if it is not the start of a `Put` of other bytes. -/
theorem Invariant.next {data : Bytes} (h : Invariant s hash data w)
    (hput : ∀ held metadata, event = .start (.put hash held metadata) → held = data) :
    Invariant s hash data (s.machine.next w event) := by
  intro hdl'
  have hdelete : ¬ DeleteCalled hash w.calls := fun hd => hdl' (deleteCalled_next s hd)
  obtain ⟨honly, hsound⟩ := h hdelete
  refine Calls.Machine.next_rule (m := s.machine) (fun w => (s.copies w.shared hash).Only data ∧
    ∀ call ∈ w.calls, call.Sound hash data (s.copies w.shared hash)) ⟨honly, hsound⟩ ?_ ?_
  · intro request he
    refine ⟨honly, fun call hcall => ?_⟩
    rcases mem_append.mp hcall with hold | hnew
    · exact hsound call hold
    · rw [mem_singleton.mp hnew]
      exact sound_init s request _ fun held metadata hr => hput held metadata (by rw [he, hr])
  · intro i input call he hg
    have hde : call.deletes ≠ some hash := fun hd => hdelete ⟨call, mem_of_getElem? hg, hd⟩
    obtain ⟨hmove, hnew⟩ :=
      s.callStep_move input honly (hsound call (mem_of_getElem? hg)) hde
    refine ⟨honly.move hmove, fun other hother => ?_⟩
    rcases mem_or_eq_of_mem_set hother with hold | heq
    · exact (hsound other hold).move hmove
    · rw [heq]
      exact hnew

/-- A hash has one content in the whole run. -/
theorem ContentHashed.exists_content {sha256Hex : Bytes → String} {tiers : Tiers σ τ}
    {events : List (Calls.Event Request Input)} (h : ContentHashed s sha256Hex tiers events)
    (hash : String) : ∃ data, ∀ other, Brought s tiers events hash other → other = data := by
  by_cases hex : ∃ data, Brought s tiers events hash data
  · obtain ⟨data, hdata⟩ := hex
    refine ⟨data, fun other hother => h.collisionFree hash hash other data hother hdata ?_⟩
    rw [h.hash hash other hother, h.hash hash data hdata]
  · exact ⟨[], fun other hother => absurd ⟨other, hother⟩ hex⟩

end Runs

/-- **Tiering never loses data.** In every state of every interleaving, with failures of the calls to
the two stores at any point, each blob whose `Put` has returned without error and on which `Delete`
was not called is in a tier with its bytes. -/
theorem tiering_keeps {σ τ : Type} (s : HybridStore σ τ) (sha256Hex : Bytes → String)
    (tiers : Tiers σ τ) (events : List (Calls.Event Request Input))
    (hashed : ContentHashed s sha256Hex tiers events) (n : Nat) :
    Kept s ((events.take n).foldl s.machine.next (.idle tiers)) := by
  intro hash data hstored hdelete
  obtain ⟨content, hcontent⟩ := hashed.exists_content s hash
  have hinv : Invariant s hash content ((events.take n).foldl s.machine.next (.idle tiers)) := by
    refine List.foldlRecOn (motive := Invariant s hash content) (events.take n) _ ?_ ?_
    · intro _
      refine ⟨⟨fun other hother => hcontent other (.inl hother),
        fun other hother => hcontent other (.inr (.inl hother))⟩, fun call hcall => ?_⟩
      cases hcall
    · intro w hw event hevent
      refine hw.next s fun held metadata he => hcontent held (.inr (.inr ⟨metadata, ?_⟩))
      rw [← he]
      exact mem_of_mem_take hevent
  obtain ⟨honly, hsound⟩ := hinv hdelete
  obtain ⟨rfl, hpresent⟩ := hsound _ hstored rfl
  exact honly.eq_of_present hpresent

def sampleHybrid : HybridStore (ReadableStore sampleEnv.cfg sampleEnv.codec)
    (ReadableStore sampleEnv.cfg sampleEnv.codec) where
  cfg := { enabled := false, strategy := .manual, hotMaxSizeGB := 0, hotMaxAgeDays := 0 }
  hot := localStore sampleEnv.cfg sampleEnv.codec plainCodec_lawful
  cold := localStore sampleEnv.cfg sampleEnv.codec plainCodec_lawful

def emptyTiers : Tiers (ReadableStore sampleEnv.cfg sampleEnv.codec) (ReadableStore sampleEnv.cfg sampleEnv.codec) :=
  { hot := ⟨.fresh, readable_fresh⟩, cold := ⟨.fresh, readable_fresh⟩ }

/-- A `Put`, a `CoolDown` of its blob whose copy to the cold tier fails, and another one that is
overtaken by a `Get` between the copy and the deletion of the hot one. -/
def coolDownEvents : List (Calls.Event Request Input) :=
  let quiet : Input := { failure := none, now := 1, nonce := zeroNonce }
  let failing : Input := { quiet with failure := some "disk full" }
  [.start (.put sampleHash [7] (newMetadata sampleChunk 1)), .run 0 quiet,
   .start (.coolDown sampleHash), .run 1 quiet, .run 1 quiet, .run 1 quiet, .run 1 quiet, .run 1 failing,
   .start (.coolDown sampleHash), .run 2 quiet, .run 2 quiet, .run 2 quiet, .run 2 quiet, .run 2 quiet,
   .start (.get sampleHash), .run 3 quiet, .run 2 quiet]

/-- At its end the blob is in the cold tier. -/
theorem tiering_keeps_coolDown :
    let w := coolDownEvents.foldl sampleHybrid.machine.next (.idle emptyTiers)
    w.calls[0]? = some (.stored sampleHash [7]) ∧
      sampleHybrid.copies w.shared sampleHash = ⟨none, some [7]⟩ ∧ Kept sampleHybrid w := by
  refine ⟨by decide +kernel, by decide +kernel, ?_⟩
  have hbrought : ∀ hash data, Brought sampleHybrid emptyTiers coolDownEvents hash data →
      hash = sampleHash ∧ data = [7] := by
    rintro hash data (hh | hc | ⟨metadata, hmem⟩)
    · cases hh
    · cases hc
    · simp [coolDownEvents] at hmem
      exact ⟨hmem.1, hmem.2.1⟩
  refine tiering_keeps sampleHybrid sampleEnv.sha256Hex emptyTiers coolDownEvents ⟨?_, ?_⟩ 17
  · intro hash data h
    obtain ⟨rfl, rfl⟩ := hbrought hash data h
    rfl
  · intro hash hash' data data' h h' _
    rw [(hbrought hash data h).2, (hbrought hash' data' h').2]

end Bib.Blob.Hybrid
