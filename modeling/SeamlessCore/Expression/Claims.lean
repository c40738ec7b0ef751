/-
  SeamlessCore.Expression.Claims — records, maps and input claims.

  At every key, a record that can be joined is in one of the two maps, and in
  one only.  A record claims its inputs when it is made, and drops its claims
  once, after its work has ended; how many of them it gives back is up to the
  exceptions of the buffer cache.  What an event can do to the maps is stated
  once, by `Evolves`, with the records whose work it may end; what an activity
  can do to the claims of a record is stated once, by `Keeps`.

  Main results:
    * `stepEvent_evolves` — one event of the registry;
    * `stepRun_keeps` — one activity, with the claims;
    * `stepRun_eq` — where nothing raises, the two machines do the same.
-/
import SeamlessCore.Expression.Evaluations
import SeamlessCore.Expression.Waiters

namespace SeamlessCore.Expression

namespace Registry

variable {Member : Type}

/-! ## §1. The maps. -/

/-- The record is filed under the key. -/
def InMaps (s : Registry Member) (r : Nat) : Prop := s.active = some r ∨ s.lingering = some r

/-- The two maps are never both in use. -/
def Single (s : Registry Member) : Prop := s.active = none ∨ s.lingering = none

/-- The result is there, or the task is done. -/
def Ended (s : Registry Member) (r : Nat) : Prop :=
  (s.records r).resultFuture.isSome = true ∨ (s.records r).task = some .done

/-- One record at most is filed. -/
theorem inMaps_unique {s : Registry Member} (hs : s.Single) {r r' : Nat} (hr : s.InMaps r)
    (hr' : s.InMaps r') : r = r' := by
  rcases hs with h | h
  · rcases hr with hr | hr
    · rw [h] at hr
      cases hr
    · rcases hr' with hr' | hr'
      · rw [h] at hr'
        cases hr'
      · exact Option.some.inj (hr.symm.trans hr')
  · rcases hr with hr | hr
    · rcases hr' with hr' | hr'
      · exact Option.some.inj (hr.symm.trans hr')
      · rw [h] at hr'
        cases hr'
    · rw [h] at hr
      cases hr

/-- What may become of the maps, where only records of `X` end. -/
structure Evolves (X : Nat → Prop) (s t : Registry Member) : Prop where
  count : s.recordCount ≤ t.recordCount
  /-- Only new records come into the maps. -/
  maps : ∀ r, t.InMaps r → s.InMaps r ∨ (s.recordCount ≤ r ∧ r < t.recordCount)
  single : s.Single → t.Single
  ended : ∀ r, t.Ended r → s.Ended r ∨ X r
  fresh : ∀ r, s.recordCount ≤ r → r < t.recordCount → t.Ended r → X r

/-- Nothing happens. -/
theorem Evolves.refl (X : Nat → Prop) (s : Registry Member) : Evolves X s s :=
  ⟨Nat.le_refl _, fun _ h => .inl h, id, fun _ h => .inl h, fun _ h h' => absurd h' (by omega)⟩

/-- One step after another -/
theorem Evolves.trans {X : Nat → Prop} {s t u : Registry Member} (h : Evolves X s t)
    (h' : Evolves X t u) : Evolves X s u := by
  have hcount := h.count
  have hcount' := h'.count
  refine ⟨by omega, ?_, fun hs => h'.single (h.single hs), ?_, ?_⟩
  · intro r hr
    rcases h'.maps r hr with ht | hnew
    · rcases h.maps r ht with hs | hnew
      · exact .inl hs
      · right
        omega
    · right
      omega
  · intro r hr
    rcases h'.ended r hr with ht | hx
    · exact h.ended r ht
    · exact .inr hx
  · intro r hs hu hr
    by_cases ht : r < t.recordCount
    · rcases h'.ended r hr with ht' | hx
      · exact h.fresh r hs ht ht'
      · exact hx
    · exact h'.fresh r (by omega) hu hr

/-- More records may end. -/
theorem Evolves.mono {X Y : Nat → Prop} {s t : Registry Member} (h : Evolves X s t)
    (hX : ∀ r, X r → Y r) : Evolves Y s t :=
  ⟨h.count, h.maps, h.single, fun r hr => (h.ended r hr).imp_right (hX r),
    fun r hs ht hr => hX r (h.fresh r hs ht hr)⟩

variable {X : Nat → Prop}

/-- Calls do not matter. -/
theorem evolves_of_records {s t : Registry Member} (hrecords : t.records = s.records)
    (hcount : t.recordCount = s.recordCount) (hactive : t.active = s.active)
    (hlingering : t.lingering = s.lingering) : Evolves X s t := by
  refine ⟨Nat.le_of_eq hcount.symm, ?_, ?_, ?_, fun r h h' => absurd h' (by omega)⟩
  · intro r hr
    unfold InMaps at hr
    rw [hactive, hlingering] at hr
    exact .inl hr
  · intro hs
    unfold Single
    rw [hactive, hlingering]
    exact hs
  · intro r hr
    unfold Ended at hr
    rw [hrecords] at hr
    exact .inl hr

/-- An update of one record, which may end it -/
theorem updateRecord_evolves (s : Registry Member) (r : Nat)
    (f : ActiveExpression Member → ActiveExpression Member)
    (hf : ((f (s.records r)).resultFuture.isSome = true ∨ (f (s.records r)).task = some .done) →
      s.Ended r ∨ X r) : Evolves X s (s.updateRecord r f) := by
  refine ⟨Nat.le_refl _, fun _ h => .inl h, id, ?_, fun r' h h' => absurd h' (Nat.not_lt.mpr h)⟩
  intro r' hr'
  unfold Ended updateRecord at hr'
  by_cases hr : r' = r
  · rw [hr] at hr' ⊢
    simp only [Function.update_self] at hr'
    exact hf hr'
  · simp only [Function.update_of_ne hr] at hr'
    exact .inl hr'

/-- An update that keeps the result and does not finish the task. -/
theorem updateRecord_keeps (s : Registry Member) (r : Nat)
    (f : ActiveExpression Member → ActiveExpression Member)
    (hfuture : ∀ a, (f a).resultFuture = a.resultFuture)
    (htask : ∀ a, (f a).task = some .done → a.task = some .done) :
    Evolves X s (s.updateRecord r f) := by
  apply updateRecord_evolves
  intro h
  left
  rcases h with h | h
  · left
    rw [← hfuture]
    exact h
  · exact .inr (htask _ h)

/-- A record leaves the maps. -/
theorem unfile_evolves {s t : Registry Member} (hrecords : t.records = s.records)
    (hcount : t.recordCount = s.recordCount) (hactive : t.active = s.active ∨ t.active = none)
    (hlingering : t.lingering = s.lingering ∨ t.lingering = none) : Evolves X s t := by
  refine ⟨Nat.le_of_eq hcount.symm, ?_, ?_, ?_, fun r h h' => absurd h' (by omega)⟩
  · intro r hr
    left
    rcases hr with hr | hr
    · rcases hactive with h | h
      · exact .inl (h ▸ hr)
      · rw [h] at hr
        cases hr
    · rcases hlingering with h | h
      · exact .inr (h ▸ hr)
      · rw [h] at hr
        cases hr
  · intro hs
    rcases hs with hs | hs
    · left
      rcases hactive with h | h
      · rw [h, hs]
      · exact h
    · right
      rcases hlingering with h | h
      · rw [h, hs]
      · exact h
  · intro r hr
    unfold Ended at hr
    rw [hrecords] at hr
    exact .inl hr

/-- A record leaves the map of active ones. -/
theorem popActive_evolves (s : Registry Member) (r : Nat) : Evolves X s (s.popActive r) := by
  unfold popActive
  split
  · exact unfile_evolves rfl rfl (.inr rfl) (.inl rfl)
  · exact .refl X s

/-- A record leaves the map of lingering ones. -/
theorem popLingering_evolves (s : Registry Member) (r : Nat) :
    Evolves X s (s.popLingering r) := by
  unfold popLingering
  split
  · exact unfile_evolves rfl rfl (.inl rfl) (.inr rfl)
  · exact .refl X s

/-! ## §2. Joins and leaves. -/

/-- A new record comes in place of a finished one, or where no map is in use. -/
theorem createRecord_evolves {s : Registry Member} (hs : s.Single → s.lingering = none)
    {task : Option TaskState} (htask : task ≠ some .done) :
    Evolves X s (s.createRecord task) := by
  have hfresh : ¬ (s.createRecord task).Ended s.recordCount := by
    unfold Ended createRecord
    simp only [Function.update_self, newRecord]
    rintro (h | h)
    · cases h
    · exact htask h
  refine ⟨Nat.le_succ _, ?_, ?_, ?_, ?_⟩
  · intro r hr
    rcases hr with hr | hr
    · right
      have hr' : s.recordCount = r := Option.some.inj hr
      show s.recordCount ≤ r ∧ r < s.recordCount + 1
      omega
    · exact .inl (.inr hr)
  · intro hsingle
    exact .inr (hs hsingle)
  · intro r hr
    left
    by_cases hnew : r = s.recordCount
    · rw [hnew] at hr
      exact absurd hr hfresh
    · unfold Ended createRecord at hr
      simp only [Function.update_of_ne hnew] at hr
      exact hr
  · intro r hs' ht' hr
    have heq : r = s.recordCount := Nat.le_antisymm (Nat.le_of_lt_succ ht') hs'
    rw [heq] at hr
    exact absurd hr hfresh

/-- The record that a call finds, or the new one, is the active one. -/
theorem obtain_evolves (s : Registry Member) {task : Option TaskState}
    (htask : task ≠ some .done) : Evolves X s (s.obtain task).2.2 := by
  unfold obtain findRecord
  cases hactive : s.active with
  | some r =>
    have hlingering : s.Single → s.lingering = none := by
      intro hs
      rcases hs with hs | hs
      · rw [hactive] at hs
        cases hs
      · exact hs
    simp only
    split
    · exact createRecord_evolves hlingering htask
    · exact evolves_of_records rfl rfl hactive.symm rfl
  | none =>
    have hpop : Evolves X s { s with lingering := none } :=
      unfile_evolves rfl rfl (.inl rfl) (.inr rfl)
    cases hlingering : s.lingering with
    | none => exact hpop.trans (createRecord_evolves (fun _ => rfl) htask)
    | some r =>
      simp only
      split
      · exact hpop.trans (createRecord_evolves (fun _ => rfl) htask)
      · -- the lingering record is active again
        refine ⟨Nat.le_refl _, ?_, fun _ => .inr rfl, fun _ h => .inl h,
          fun _ h h' => absurd h' (Nat.not_lt.mpr h)⟩
        intro r' hr'
        rcases hr' with hr' | hr'
        · have heq : r = r' := Option.some.inj hr'
          rw [← heq]
          exact .inl (.inr hlingering)
        · cases hr'

/-- Cancelling a timer changes neither the result nor the task. -/
theorem cancelLinger_resultFuture (a : ActiveExpression Member) :
    (cancelLinger a).resultFuture = a.resultFuture ∧ (cancelLinger a).task = a.task := by
  unfold cancelLinger
  split <;> exact ⟨rfl, rfl⟩

variable [DecidableEq Member]

/-- A member joins a record. -/
theorem joinExpression_evolves (s : Registry Member) (r : Nat) (m : Member) (c : Nat) :
    Evolves X s (s.joinExpression r m c) := by
  apply updateRecord_keeps
  · intro a
    exact (cancelLinger_resultFuture a).1
  · intro a h
    rw [← (cancelLinger_resultFuture a).2]
    exact h

omit [DecidableEq Member] in
theorem queueCancel_evolves (s : Registry Member) (c : Option Nat) :
    Evolves X s (s.queueCancel c) := by
  cases c with
  | none => exact .refl X s
  | some c => exact evolves_of_records rfl rfl rfl rfl

/-- A member leaves a record. -/
theorem removeMember_evolves (s : Registry Member) (r : Nat) (m : Member) :
    Evolves X s (s.removeMember r m) := by
  refine Evolves.trans ?_ (queueCancel_evolves _ _)
  exact updateRecord_keeps _ _ _ (fun _ => rfl) fun _ h => h

/-- A last member moves the record from one map to the other. -/
theorem softcancel_evolves (s : Registry Member) (m : Member) :
    Evolves X s (s.softcancel m).1 := by
  unfold softcancel
  cases hactive : s.active with
  | none => exact .refl X s
  | some r =>
    simp only
    split
    · exact .refl X s
    · have hremove := removeMember_evolves (X := X) s r m
      have hactive' : (s.removeMember r m).active = some r := by
        unfold removeMember
        cases (s.records r).waiters m <;> exact hactive
      split
      · split
        · exact hremove
        · refine hremove.trans ?_
          refine Evolves.trans (t := { s.removeMember r m with
            active := none, lingering := some r }) ?_ ?_
          · refine ⟨Nat.le_refl _, ?_, fun _ => .inl rfl, fun _ h => .inl h,
              fun _ h h' => absurd h' (Nat.not_lt.mpr h)⟩
            intro r' hr'
            rcases hr' with hr' | hr'
            · cases hr'
            · have heq : r = r' := Option.some.inj hr'
              rw [← heq]
              exact .inl (.inl hactive')
          · exact updateRecord_keeps { s.removeMember r m with active := none, lingering := some r } r
              (fun a => { a with schedules := a.schedules + 1 }) (fun _ => rfl) fun _ h => h
      · exact hremove

/-- A call that ends leaves its record. -/
theorem endCall_evolves (s : Registry Member) (c : Nat) (v : Verdict) :
    Evolves X s (s.endCall c v) := by
  have hended : Evolves X s (s.updateCall c fun call => { call with ended := some v }) :=
    evolves_of_records rfl rfl rfl rfl
  exact hended.trans (softcancel_evolves _ (s.calls c).member)

/-- The joins, up to their wait -/
theorem joinAsync_evolves (s : Registry Member) (m : Member) : Evolves X s (s.joinAsync m) := by
  have hobtain : Evolves X s (s.obtain (some .running)).2.2 := obtain_evolves s (by decide)
  have hjoin := hobtain.trans (joinExpression_evolves (s.obtain (some .running)).2.2
    (s.obtain (some .running)).1 m (s.obtain (some .running)).2.2.callCount)
  exact hjoin.trans (evolves_of_records rfl rfl rfl rfl)

theorem joinSync_evolves (s : Registry Member) (m : Member) (sameLoop : Bool) :
    Evolves X s (s.joinSync m sameLoop) := by
  have hjoin : Evolves X s ((s.obtain none).2.2.updateRecord (s.obtain none).1 fun a =>
      { a with members := insert m a.members }) := by
    have hobtain : Evolves X s (s.obtain none).2.2 := obtain_evolves s (by decide)
    exact hobtain.trans (updateRecord_keeps _ _ _ (fun _ => rfl) fun _ h => h)
  unfold joinSync
  simp only
  split
  · exact hjoin.trans (evolves_of_records rfl rfl rfl rfl)
  · split
    · exact hjoin.trans (softcancel_evolves _ _)
    · exact hjoin.trans (evolves_of_records rfl rfl rfl rfl)

/-! ## §3. Timers and completion. -/

omit [DecidableEq Member] in
theorem cancelLinger_evolves (s : Registry Member) (r : Nat) :
    Evolves X s (s.updateRecord r cancelLinger) := by
  apply updateRecord_keeps
  · intro a
    exact (cancelLinger_resultFuture a).1
  · intro a h
    rw [← (cancelLinger_resultFuture a).2]
    exact h

/-- Whether a timer is set or not, the maps stay. -/
theorem schedule_evolves (s : Registry Member) (r : Nat) : Evolves X s (s.schedule r) := by
  unfold schedule
  simp only
  split
  · exact .refl X s
  · split
    · exact updateRecord_keeps _ _ _ (fun _ => rfl) fun _ h => h
    · exact updateRecord_keeps _ _ _ (fun _ => rfl) fun _ h => h

omit [DecidableEq Member] in
theorem requestCancel_evolves (s : Registry Member) (r : Nat) :
    Evolves X s (s.updateRecord r requestCancel) := by
  apply updateRecord_keeps
  · intro a
    unfold requestCancel
    split <;> rfl
  · intro a h
    unfold requestCancel at h
    split at h
    · cases h
    · exact h

/-- A timer takes its record out of the maps, and may request a cancellation. -/
theorem expire_evolves (s : Registry Member) (r h : Nat) : Evolves X s (s.expire r h) := by
  unfold expire
  split
  · exact .refl X s
  · have htimer : Evolves X s (s.updateRecord r fun a => { a with timers := a.timers.erase h }) :=
      updateRecord_keeps _ _ _ (fun _ => rfl) fun _ h => h
    simp only
    split
    · exact htimer
    · have hpop : Evolves X s
          { s.updateRecord r (fun a => { a with timers := a.timers.erase h }) with
            lingering := none } :=
        htimer.trans (unfile_evolves rfl rfl (.inl rfl) (.inr rfl))
      split
      · exact hpop.trans (requestCancel_evolves _ _)
      · exact hpop

omit [DecidableEq Member] in
/-- A result is set for a record that has ended, or that ends with it. -/
theorem settle_evolves (s : Registry Member) {r : Nat} (v : Verdict) (hr : s.Ended r ∨ X r) :
    Evolves X s (s.updateRecord r fun a => settle a v) := by
  apply updateRecord_evolves
  intro _
  exact hr

omit [DecidableEq Member] in
/-- A synchronous owner takes its record out of the maps. -/
theorem finishOwner_evolves (s : Registry Member) (c : Nat) (v : Verdict) :
    Evolves X s (s.finishOwner c v) := by
  have hpop := (popActive_evolves (X := X) s (s.calls c).record).trans
    (popLingering_evolves _ (s.calls c).record)
  have hlinger := hpop.trans (cancelLinger_evolves _ (s.calls c).record)
  exact hlinger.trans (evolves_of_records rfl rfl rfl rfl)

omit [DecidableEq Member] in
/-- A task ends only after its result is there. -/
theorem finishTask_evolves (s : Registry Member) {r : Nat}
    (hr : (s.records r).resultFuture.isSome = true) : Evolves X s (s.finishTask r) := by
  have htask : Evolves X s (s.updateRecord r fun a => { a with task := some .done }) := by
    apply updateRecord_evolves
    intro _
    exact .inl (.inl hr)
  exact htask.trans (popActive_evolves _ r)

omit [DecidableEq Member] in
/-- The completion callback runs on a task that is done. -/
theorem discardActive_evolves (s : Registry Member) {r : Nat}
    (hr : (s.records r).task = some .done) : Evolves X s (s.discardActive r) := by
  have hpop := (popActive_evolves (X := X) s r).trans (popLingering_evolves _ r)
  have hlinger := hpop.trans (cancelLinger_evolves _ r)
  refine hlinger.trans (settle_evolves _ .cancelled (.inl (.inr ?_)))
  -- the task is done before and after
  rw [updateRecord_records, if_pos rfl, (cancelLinger_resultFuture _).2, popLingering_records,
    popActive_records]
  exact hr

/-- The records whose work an event may end. -/
def Ends (s : Registry Member) : Event Member → Nat → Prop
  | .settleOwner c _, r => r = (s.calls c).record
  | .settleTask r' _, r | .cancelTask r', r | .dropTask r', r => r = r'
  | _, _ => False

/-- The step lemma of the maps, one case per event. -/
theorem stepEvent_evolves (s : Registry Member) (e : Event Member) :
    Evolves (s.Ends e) s (s.stepEvent e) := by
  cases e with
  | joinAsync m => exact joinAsync_evolves s m
  | joinSync m sameLoop => exact joinSync_evolves s m sameLoop
  | cancelCall c =>
    simp only [stepEvent]
    split
    · -- the call is marked, and then ended
      have htargeted : Evolves (s.Ends (.cancelCall c)) s
          (s.updateCall c fun call => { call with targeted := true }) :=
        evolves_of_records rfl rfl rfl rfl
      exact htargeted.trans (endCall_evolves _ _ _)
    · exact .refl _ s
  | softcancel m =>
    have htarget : Evolves (s.Ends (.softcancel m)) s (s.target m) :=
      evolves_of_records rfl rfl rfl rfl
    exact htarget.trans (softcancel_evolves (s.target m) m)
  | deliverCancel c =>
    simp only [stepEvent]
    split
    · exact evolves_of_records rfl rfl rfl rfl
    · exact .refl _ s
  | deliverResult c =>
    simp only [stepEvent]
    split
    · exact .refl _ s
    · split
      · exact evolves_of_records rfl rfl rfl rfl
      · exact .refl _ s
  | resume c =>
    simp only [stepEvent]
    split
    · split
      · exact .refl _ s
      · split
        · exact .refl _ s
        · exact endCall_evolves _ _ _
      · split
        · exact .refl _ s
        · exact endCall_evolves _ _ _
    · exact .refl _ s
  | schedule r => exact schedule_evolves s r
  | expire r h => exact expire_evolves s r h
  | settleOwner c failed =>
    simp only [stepEvent]
    split
    · exact settle_evolves s _ (.inr rfl)
    · exact .refl _ s
  | finishOwner c =>
    simp only [stepEvent]
    split
    · exact .refl _ s
    · split
      · exact finishOwner_evolves s c _
      · exact .refl _ s
  | settleTask r failed =>
    simp only [stepEvent]
    split
    · exact settle_evolves s _ (.inr rfl)
    · exact .refl _ s
  | cancelTask r =>
    simp only [stepEvent]
    split
    · exact settle_evolves s _ (.inr rfl)
    · exact .refl _ s
  | finishTask r =>
    simp only [stepEvent]
    split
    next h => exact finishTask_evolves s h.2
    next => exact .refl _ s
  | dropTask r =>
    simp only [stepEvent]
    split
    · apply updateRecord_evolves
      intro _
      exact .inr rfl
    · exact .refl _ s
  | discard r =>
    simp only [stepEvent]
    split
    next h => exact discardActive_evolves s h
    next => exact .refl _ s

/-! ## §4. What a join finds. -/

omit [DecidableEq Member] in
/-- A call joins a new record, or one that is filed. -/
theorem obtain_cases (s : Registry Member) (task : Option TaskState) :
    ((s.obtain task).2.1 = true ∧ (s.obtain task).1 = s.recordCount ∧
        (s.obtain task).2.2.recordCount = s.recordCount + 1) ∨
      ((s.obtain task).2.1 = false ∧ s.InMaps (s.obtain task).1 ∧
        (s.obtain task).2.2.recordCount = s.recordCount) := by
  unfold obtain findRecord
  cases hactive : s.active with
  | some r =>
    simp only
    split
    · exact .inl ⟨rfl, rfl, rfl⟩
    · exact .inr ⟨rfl, .inl hactive, rfl⟩
  | none =>
    cases hlingering : s.lingering with
    | none => exact .inl ⟨rfl, rfl, rfl⟩
    | some r =>
      simp only
      split
      · exact .inl ⟨rfl, rfl, rfl⟩
      · exact .inr ⟨rfl, .inr hlingering, rfl⟩

/-- A softcancel makes no record. -/
theorem softcancel_recordCount (s : Registry Member) (m : Member) :
    (s.softcancel m).1.recordCount = s.recordCount := by
  have hremove : ∀ r, (s.removeMember r m).recordCount = s.recordCount := by
    intro r
    unfold removeMember
    cases (s.records r).waiters m <;> rfl
  unfold softcancel
  cases s.active with
  | none => rfl
  | some r =>
    simp only
    split
    · rfl
    · split
      · split <;> exact hremove r
      · exact hremove r

/-- A synchronous call makes one at most, where it obtains it. -/
theorem joinSync_recordCount (s : Registry Member) (m : Member) (sameLoop : Bool) :
    (s.joinSync m sameLoop).recordCount = (s.obtain none).2.2.recordCount := by
  unfold joinSync
  simp only
  split
  · rfl
  · split
    · exact softcancel_recordCount _ m
    · rfl

omit [DecidableEq Member] in
/-- A record that was popped is in neither map. -/
theorem popped_unfiled (s : Registry Member) (r : Nat) :
    ¬ ((s.popActive r).popLingering r).InMaps r := by
  unfold popActive popLingering InMaps
  by_cases ha : s.active = some r
  · by_cases hl : s.lingering = some r
    · simp [ha, hl]
    · simp [ha, hl]
  · by_cases hl : s.lingering = some r
    · simp [ha, hl]
    · simp [ha, hl]

end Registry

/-! ## §5. Claims. -/

open Refholds (CacheCall)

variable {Member Checksum : Type} [DecidableEq Member] [DecidableEq Checksum]

namespace Evaluations

open Registry (Evolves)

/-- The invariant of the evaluations of a key. -/
structure Consistent (s : Evaluations Member Checksum) : Prop where
  single : s.registry.Single
  bounded : ∀ r, s.registry.InMaps r → s.Made r
  unmade : ∀ r, ¬ s.Made r → (s.work r).inputClaims = []

/-- The calls of one kind that were made for a record -/
def callsFor (calls : Calls Checksum) (r : Nat) (call : CacheCall Checksum) : Nat :=
  if calls.1 = r then calls.2.count call else 0

/-- The record whose claims an activity gives back -/
def releasing (s : Evaluations Member Checksum) : Activity Member Checksum → Option Nat
  | .finishRemote r | .event (.discard r) => some r
  | .event (.finishOwner c) => some (s.registry.calls c).record
  | _ => none

/-- Nothing happens to the claims of the record. -/
def Rests (s : Evaluations Member Checksum) (out : Evaluations Member Checksum × Calls Checksum)
    (r : Nat) : Prop :=
  (out.1.work r).inputClaims = (s.work r).inputClaims ∧ ∀ call, callsFor out.2 r call = 0

/-- The record, whose work has ended, drops its claims, and gives them back as
far as nothing raises. -/
def Releases (s : Evaluations Member Checksum)
    (a : Activity Member Checksum × (Checksum → Bool))
    (out : Evaluations Member Checksum × Calls Checksum) (r : Nat) : Prop :=
  s.releasing a.1 = some r ∧ s.Made r ∧ s.registry.Ended r ∧ (out.1.work r).inputClaims = [] ∧
    out.2 = (r, (giveBack a.2 (s.work r).inputClaims).1.map .decrefRefholder)

/-- The record is made, and claims its inputs. -/
def Takes (s : Evaluations Member Checksum) (out : Evaluations Member Checksum × Calls Checksum)
    (r : Nat) (checksums : List Checksum) : Prop :=
  ¬ s.Made r ∧ out.1.Made r ∧ (out.1.work r).inputClaims = checksums.eraseDups ∧
    out.2 = (r, checksums.eraseDups.map .increfRefholder)

/-- What an activity does, with its calls to the buffer cache. -/
structure Keeps (s : Evaluations Member Checksum)
    (a : Activity Member Checksum × (Checksum → Bool))
    (out : Evaluations Member Checksum × Calls Checksum) : Prop where
  consistent : out.1.Consistent
  made : ∀ r, s.Made r → out.1.Made r
  /-- A record that has left the maps stays away. -/
  maps : ∀ r, s.Made r → out.1.registry.InMaps r → s.registry.InMaps r
  claims : ∀ r, Rests s out r ∨ Releases s a out r ∨ ∃ checksums, Takes s out r checksums

omit [DecidableEq Member] [DecidableEq Checksum] in
/-- The fields of the records after one was marked -/
theorem setWork_work (s : Evaluations Member Checksum) (r r' : Nat)
    (f : Work Checksum → Work Checksum) :
    (s.setWork r f).work r' = if r' = r then f (s.work r) else s.work r' := by
  unfold setWork
  by_cases h : r' = r
  · rw [if_pos h, h]
    exact Function.update_self _ _ _
  · rw [if_neg h]
    exact Function.update_of_ne h _ _

/-- An activity without calls -/
theorem callsFor_nil (r r' : Nat) (call : CacheCall Checksum) :
    callsFor (r, []) r' call = 0 := by
  unfold callsFor
  split <;> rfl

/-- Calls for another record -/
theorem callsFor_other {r r' : Nat} (h : r ≠ r') (calls : List (CacheCall Checksum))
    (call : CacheCall Checksum) : callsFor (r, calls) r' call = 0 := if_neg h

omit [DecidableEq Member] in
/-- An activity keeps the invariant, from the maps and from what it does to the
claims of each record. -/
theorem keeps_of_claims {s : Evaluations Member Checksum}
    {a : Activity Member Checksum × (Checksum → Bool)}
    {out : Evaluations Member Checksum × Calls Checksum} (hs : s.Consistent) {X : Nat → Prop}
    (hregistry : Evolves X s.registry out.1.registry)
    (hclaims : ∀ r, Rests s out r ∨ Releases s a out r ∨ ∃ checksums, Takes s out r checksums) :
    Keeps s a out := by
  have hmade : ∀ r, s.Made r → out.1.Made r := by
    intro r hr
    have hcount := hregistry.count
    unfold Made at hr ⊢
    omega
  refine ⟨⟨hregistry.single hs.single, ?_, ?_⟩, hmade, ?_, hclaims⟩
  · intro r hr
    rcases hregistry.maps r hr with h | h
    · exact hmade r (hs.bounded r h)
    · exact h.2
  · intro r hr
    -- a record that is not there was not there before, and nobody made it
    rcases hclaims r with h | h | ⟨checksums, h⟩
    · rw [h.1]
      exact hs.unmade r fun hold => hr (hmade r hold)
    · exact absurd (hmade r h.2.1) hr
    · exact absurd h.2.1 hr
  · intro r hr hin
    rcases hregistry.maps r hin with h | h
    · exact h
    · exact absurd hr (Nat.not_lt.mpr h.1)

omit [DecidableEq Member] in
/-- An activity without calls to the cache. -/
theorem quiet_keeps {s t : Evaluations Member Checksum} (hs : s.Consistent)
    (a : Activity Member Checksum × (Checksum → Bool)) {X : Nat → Prop}
    (hregistry : Evolves X s.registry t.registry)
    (hwork : ∀ r, (t.work r).inputClaims = (s.work r).inputClaims) (r : Nat) :
    Keeps s a (t, (r, [])) := by
  refine keeps_of_claims hs hregistry fun r' => .inl ⟨hwork r', ?_⟩
  intro call
  exact callsFor_nil r r' call

omit [DecidableEq Member] in
/-- A record whose work has ended drops its claims. -/
theorem release_keeps {s : Evaluations Member Checksum}
    {out : Evaluations Member Checksum × Calls Checksum} (hs : s.Consistent)
    {a : Activity Member Checksum × (Checksum → Bool)} {X : Nat → Prop}
    (hregistry : Evolves X s.registry out.1.registry) {r : Nat} (ha : s.releasing a.1 = some r)
    (hmade : s.Made r) (hended : s.registry.Ended r)
    (hwork : out.1.work = Function.update s.work r { s.work r with inputClaims := [] })
    (hcalls : out.2 = (r, (giveBack a.2 (s.work r).inputClaims).1.map .decrefRefholder)) :
    Keeps s a out := by
  refine keeps_of_claims hs hregistry fun r' => ?_
  by_cases hr : r' = r
  · right
    left
    rw [hr]
    refine ⟨ha, hmade, hended, ?_, hcalls⟩
    rw [hwork, Function.update_self]
  · left
    refine ⟨?_, fun call => ?_⟩
    · rw [hwork, Function.update_of_ne hr]
    · rw [hcalls]
      exact callsFor_other (fun h => hr h.symm) _ call

omit [DecidableEq Member] in
/-- A join claims the inputs of the record that it makes. -/
theorem open_keeps {s : Evaluations Member Checksum}
    {out : Evaluations Member Checksum × Calls Checksum} (hs : s.Consistent)
    (a : Activity Member Checksum × (Checksum → Bool)) {X : Nat → Prop}
    (hregistry : Evolves X s.registry out.1.registry) {checksums : List Checksum}
    (htakes : Takes s out s.registry.recordCount checksums)
    (hother : ∀ r, r ≠ s.registry.recordCount → out.1.work r = s.work r) : Keeps s a out := by
  refine keeps_of_claims hs hregistry fun r => ?_
  by_cases hr : r = s.registry.recordCount
  -- only the new record has calls
  · right
    right
    exact ⟨checksums, hr ▸ htakes⟩
  · left
    refine ⟨congrArg Work.inputClaims (hother r hr), fun call => ?_⟩
    rw [htakes.2.2.2]
    exact callsFor_other (fun h => hr h.symm) _ call

/-! ## §6. Activities. -/

/-- An event of the registry alone -/
theorem shared_keeps {s : Evaluations Member Checksum} (hs : s.Consistent)
    (a : Activity Member Checksum × (Checksum → Bool)) (e : Registry.Event Member) (r : Nat) :
    Keeps s a (s.shared e, (r, [])) := by
  have hregistry : Evolves (s.registry.Ends e) s.registry (s.shared e).registry :=
    Registry.stepEvent_evolves s.registry e
  exact quiet_keeps hs a hregistry (fun _ => rfl) r

omit [DecidableEq Member] in
/-- An activity that cannot happen -/
theorem idle_keeps {s : Evaluations Member Checksum} (hs : s.Consistent)
    (a : Activity Member Checksum × (Checksum → Bool)) (r : Nat) : Keeps s a (s, (r, [])) :=
  quiet_keeps hs a (Evolves.refl (fun _ => False) s.registry) (fun _ => rfl) r

omit [DecidableEq Member] [DecidableEq Checksum] in
/-- A mark on a record leaves all claims alone. -/
theorem setWork_inputClaims (s : Evaluations Member Checksum) (r : Nat)
    {f : Work Checksum → Work Checksum}
    (hf : ∀ w : Work Checksum, (f w).inputClaims = w.inputClaims) (r' : Nat) :
    ((s.setWork r f).work r').inputClaims = (s.work r').inputClaims := by
  rw [setWork_work]
  by_cases h : r' = r
  · rw [if_pos h, h]
    exact hf (s.work r)
  · rw [if_neg h]

omit [DecidableEq Member] in
/-- A mark on a record -/
theorem setWork_keeps {s : Evaluations Member Checksum} (hs : s.Consistent)
    (a : Activity Member Checksum × (Checksum → Bool)) (r : Nat)
    {f : Work Checksum → Work Checksum}
    (hf : ∀ w : Work Checksum, (f w).inputClaims = w.inputClaims) :
    Keeps s a (s.setWork r f, (r, [])) := by
  have hregistry : Evolves (fun _ => False) s.registry (s.setWork r f).registry := .refl _ _
  exact quiet_keeps hs a hregistry (setWork_inputClaims s r hf) r

/-- The work of a record ends, with its event. -/
theorem endWork_keeps {s : Evaluations Member Checksum} (hs : s.Consistent)
    (a : Activity Member Checksum × (Checksum → Bool)) (e : Registry.Event Member) (r : Nat) :
    Keeps s a ((s.shared e).endWork r, (r, [])) := by
  have hregistry : Evolves (s.registry.Ends e) s.registry ((s.shared e).endWork r).registry :=
    Registry.stepEvent_evolves s.registry e
  exact quiet_keeps hs a hregistry (setWork_inputClaims (s.shared e) r fun _ => rfl) r

/-! ## §7. Joins. -/

omit [DecidableEq Member] [DecidableEq Checksum] in
/-- The setting of `scratch` is lowered, whether the call has one or not. -/
theorem demandScratch_eq (s : Evaluations Member Checksum) (r : Nat) (scratch : Option Bool) :
    s.demandScratch r scratch =
      s.setWork r fun w => { w with scratch := w.scratch && scratch.getD true } := by
  cases scratch with
  | none =>
    unfold demandScratch setWork
    simp
  | some b => rfl

/-- A task that finds no record makes one, which claims its inputs. -/
theorem joinTask_made {s : Evaluations Member Checksum} (m : Member) (remote : Bool)
    (checksums : List Checksum) (scratch : Option Bool)
    (h : (s.registry.obtain (some .running)).2.1 = true) :
    (s.joinTask m remote checksums scratch).1.registry = s.registry.joinAsync m ∧
      (s.joinTask m remote checksums scratch).1.work =
        Function.update s.work (s.registry.obtain (some .running)).1
          { Work.opened remote checksums.eraseDups with scratch := scratch.getD true } ∧
      (s.joinTask m remote checksums scratch).2 =
        ((s.registry.obtain (some .running)).1, checksums.eraseDups.map .increfRefholder) := by
  unfold joinTask
  rcases hobtain : s.registry.obtain (some .running) with ⟨r, created, reg⟩
  rw [hobtain] at h
  simp only at h ⊢
  rw [h, if_pos rfl, demandScratch_eq]
  refine ⟨rfl, ?_, rfl⟩
  have hself : (s.holdInputs r remote checksums).1.work r =
      .opened remote checksums.eraseDups := Function.update_self _ _ _
  show Function.update (Function.update s.work r _) r
    { (s.holdInputs r remote checksums).1.work r with
      scratch := ((s.holdInputs r remote checksums).1.work r).scratch && scratch.getD true } = _
  rw [Function.update_idem, hself]
  simp [Work.opened, Work.blank]

/-- A task that finds a record joins it. -/
theorem joinTask_found {s : Evaluations Member Checksum} (m : Member) (remote : Bool)
    (checksums : List Checksum) (scratch : Option Bool)
    (h : (s.registry.obtain (some .running)).2.1 = false) :
    (s.joinTask m remote checksums scratch).1.registry = s.registry.joinAsync m ∧
      (s.joinTask m remote checksums scratch).1.work =
        Function.update s.work (s.registry.obtain (some .running)).1
          { s.work (s.registry.obtain (some .running)).1 with
            scratch := (s.work (s.registry.obtain (some .running)).1).scratch &&
              scratch.getD true } ∧
      (s.joinTask m remote checksums scratch).2 = ((s.registry.obtain (some .running)).1, []) := by
  unfold joinTask
  rcases hobtain : s.registry.obtain (some .running) with ⟨r, created, reg⟩
  rw [hobtain] at h
  simp only at h ⊢
  rw [h, if_neg (by decide), demandScratch_eq]
  exact ⟨rfl, rfl, rfl⟩

/-- The task's record is made with its claims. -/
theorem joinTask_takes {s : Evaluations Member Checksum} (m : Member) (remote : Bool)
    (checksums : List Checksum) (scratch : Option Bool)
    (h : (s.registry.obtain (some .running)).2.1 = true) :
    Takes s (s.joinTask m remote checksums scratch) s.registry.recordCount checksums := by
  obtain ⟨hregistry, hwork, hcalls⟩ := joinTask_made m remote checksums scratch h
  rcases Registry.obtain_cases s.registry (some .running) with ⟨-, hr, hmade⟩ | ⟨hfound, -, -⟩
  · rw [hr] at hwork hcalls
    have hcount : (s.registry.joinAsync m).recordCount =
        (s.registry.obtain (some .running)).2.2.recordCount := rfl
    refine ⟨Nat.lt_irrefl _, ?_, ?_, hcalls⟩
    · unfold Made
      rw [hregistry]
      omega
    · rw [hwork, Function.update_self]
      rfl
  · rw [h] at hfound
    cases hfound

/-- A task joins what it finds, or is made with its claims. -/
theorem joinTask_keeps {s : Evaluations Member Checksum} (hs : s.Consistent)
    (a : Activity Member Checksum × (Checksum → Bool)) (m : Member)
    (remote : Bool) (checksums : List Checksum) (scratch : Option Bool) :
    Keeps s a (s.joinTask m remote checksums scratch) := by
  have hjoin : Evolves (fun _ => False) s.registry (s.registry.joinAsync m) :=
    Registry.joinAsync_evolves s.registry m
  rcases Registry.obtain_cases s.registry (some .running) with
    ⟨hcreated, hr, -⟩ | ⟨hcreated, -, -⟩
  · obtain ⟨hregistry, hwork, -⟩ := joinTask_made m remote checksums scratch hcreated
    rw [← hregistry] at hjoin
    refine open_keeps hs a hjoin (joinTask_takes m remote checksums scratch hcreated) ?_
    intro r hne
    rw [hwork, hr, Function.update_of_ne hne]
  · obtain ⟨hregistry, hwork, hcalls⟩ := joinTask_found m remote checksums scratch hcreated
    have hout : s.joinTask m remote checksums scratch =
        ((s.joinTask m remote checksums scratch).1, ((s.registry.obtain (some .running)).1, [])) :=
      Prod.ext rfl hcalls
    rw [← hregistry] at hjoin
    rw [hout]
    refine quiet_keeps hs a hjoin ?_ _
    intro r
    rw [hwork]
    by_cases hr : r = (s.registry.obtain (some .running)).1
    · rw [hr, Function.update_self]
    · rw [Function.update_of_ne hr]

/-- The record of a synchronous owner is made with the claim on its input. -/
theorem joinSync_takes {s : Evaluations Member Checksum} (m : Member) (sameLoop : Bool)
    (input : Checksum) (h : (s.registry.obtain none).2.1 = true) :
    Takes s (s.joinSync m sameLoop input) s.registry.recordCount [input] ∧
      ∀ r, r ≠ s.registry.recordCount → (s.joinSync m sameLoop input).1.work r = s.work r := by
  have hcount := Registry.joinSync_recordCount s.registry m sameLoop
  have hcases := Registry.obtain_cases s.registry none
  unfold joinSync
  rcases hobtain : s.registry.obtain none with ⟨r, created, reg⟩
  rw [hobtain] at h hcases hcount
  simp only at h hcases hcount ⊢
  rcases hcases with ⟨-, hr, hmade⟩ | ⟨hfound, -, -⟩
  · rw [h, hr, if_pos rfl]
    refine ⟨⟨Nat.lt_irrefl _, ?_, ?_, rfl⟩, ?_⟩
    · show s.registry.recordCount < (s.registry.joinSync m sameLoop).recordCount
      omega
    · show ((s.setWork s.registry.recordCount fun _ =>
        .opened false [input].eraseDups).work s.registry.recordCount).inputClaims = _
      rw [setWork_work, if_pos rfl]
      rfl
    · intro r' hr'
      exact Function.update_of_ne hr' _ _
  · rw [h] at hfound
    cases hfound

/-- A synchronous call joins what it finds, or owns a new record. -/
theorem joinSync_keeps {s : Evaluations Member Checksum} (hs : s.Consistent)
    (a : Activity Member Checksum × (Checksum → Bool)) (m : Member)
    (sameLoop : Bool) (input : Checksum) : Keeps s a (s.joinSync m sameLoop input) := by
  have hregistry : (s.joinSync m sameLoop input).1.registry = s.registry.joinSync m sameLoop := by
    unfold joinSync
    rcases s.registry.obtain none with ⟨r, created, reg⟩
    cases created <;> rfl
  have hjoin : Evolves (fun _ => False) s.registry (s.joinSync m sameLoop input).1.registry := by
    rw [hregistry]
    exact Registry.joinSync_evolves s.registry m sameLoop
  cases hcreated : (s.registry.obtain none).2.1 with
  | true =>
    obtain ⟨htakes, hother⟩ := joinSync_takes m sameLoop input hcreated
    exact open_keeps hs a hjoin htakes hother
  | false =>
    have hout : s.joinSync m sameLoop input =
        ({ s with registry := s.registry.joinSync m sameLoop },
          ((s.registry.obtain none).1, [])) := by
      unfold joinSync
      rcases hobtain : s.registry.obtain none with ⟨r, created, reg⟩
      rw [hobtain] at hcreated
      simp only at hcreated ⊢
      rw [hcreated, if_neg (by decide)]
    rw [hout] at hjoin ⊢
    exact quiet_keeps hs a hjoin (fun _ => rfl) _

/-! ## §8. Releases. -/

omit [DecidableEq Checksum] in
/-- Every claim but the last can be given back without an exception: then all
are given back. -/
theorem giveBack_all {fades : Checksum → Bool} {claims : List Checksum}
    (h : ∀ cs ∈ claims.dropLast, fades cs = false) : (giveBack fades claims).1 = claims := by
  induction claims with
  | nil => rfl
  | cons cs claims ih =>
    unfold giveBack
    cases claims with
    | nil => split <;> rfl
    | cons cs' claims =>
      have hcs : fades cs = false := h cs List.mem_cons_self
      have hrest : (giveBack fades (cs' :: claims)).1 = cs' :: claims :=
        ih fun cs hmem => h cs (List.mem_cons_of_mem _ hmem)
      rw [hcs, if_neg (by decide), hrest]

omit [DecidableEq Checksum] in
/-- No more than the claims is given back. -/
theorem giveBack_sublist (fades : Checksum → Bool) (claims : List Checksum) :
    (giveBack fades claims).1.Sublist claims := by
  induction claims with
  | nil => exact List.Sublist.refl _
  | cons cs claims ih =>
    unfold giveBack
    split
    · exact List.Sublist.cons_cons cs (List.nil_sublist claims)
    · exact List.Sublist.cons_cons cs ih

omit [DecidableEq Checksum] in
/-- A release that nothing raises in comes to its end. -/
theorem giveBack_returns {fades : Checksum → Bool} {claims : List Checksum}
    (h : ∀ cs ∈ claims, fades cs = false) : giveBack fades claims = (claims, true) := by
  induction claims with
  | nil => rfl
  | cons cs claims ih =>
    unfold giveBack
    rw [h cs List.mem_cons_self, if_neg (by decide),
      ih fun cs hmem => h cs (List.mem_cons_of_mem _ hmem)]

omit [DecidableEq Member] [DecidableEq Checksum] in
/-- A record that is unfiled is in neither map. -/
theorem unfile_unfiled (s : Evaluations Member Checksum) (r : Nat) :
    ¬ (s.unfile r).registry.InMaps r := Registry.popped_unfiled s.registry r

omit [DecidableEq Member] [DecidableEq Checksum] in
theorem unfile_evolves (s : Evaluations Member Checksum) (X : Nat → Prop) (r : Nat) :
    Evolves X s.registry (s.unfile r).registry := by
  have hpop := (Registry.popActive_evolves (X := X) s.registry r).trans
    (Registry.popLingering_evolves _ r)
  exact hpop.trans (Registry.cancelLinger_evolves _ r)

omit [DecidableEq Member] [DecidableEq Checksum] in
/-- A discarded record is in neither map and has no claims, whatever raises. -/
theorem discardRun_spec (s : Evaluations Member Checksum) (fades : Checksum → Bool) (r : Nat) :
    (s.discardRun fades r).1.work = Function.update s.work r { s.work r with inputClaims := [] } ∧
      (s.discardRun fades r).2 =
        (r, (giveBack fades (s.work r).inputClaims).1.map .decrefRefholder) ∧
      Evolves (· = r) s.registry (s.discardRun fades r).1.registry ∧
      ¬ (s.discardRun fades r).1.registry.InMaps r := by
  have hunfile := s.unfile_evolves (· = r) r
  have hout := s.unfile_unfiled r
  have hclaims : ((s.unfile r).work r).inputClaims = (s.work r).inputClaims := rfl
  unfold discardRun releaseRefholdsRun
  -- the maps are cleaned before the first claim is given back
  simp only [hclaims]
  split
  · refine ⟨rfl, rfl, ?_, hout⟩
    exact hunfile.trans (Registry.settle_evolves _ _ (.inr rfl))
  · exact ⟨rfl, rfl, hunfile, hout⟩

omit [DecidableEq Member] [DecidableEq Checksum] in
/-- So is the record of a synchronous owner that returns or raises. -/
theorem finishOwnerRun_spec (s : Evaluations Member Checksum) (fades : Checksum → Bool) (c : Nat) :
    let r := (s.registry.calls c).record
    (s.finishOwnerRun fades c).1.work = Function.update s.work r { s.work r with inputClaims := [] } ∧
      (s.finishOwnerRun fades c).2 =
        (r, (giveBack fades (s.work r).inputClaims).1.map .decrefRefholder) ∧
      Evolves (· = r) s.registry (s.finishOwnerRun fades c).1.registry ∧
      ¬ (s.finishOwnerRun fades c).1.registry.InMaps r := by
  intro r
  have hunfile := s.unfile_evolves (· = r) r
  have hcall : Evolves (· = r) s.registry (s.finishOwnerRun fades c).1.registry :=
    hunfile.trans (Registry.evolves_of_records rfl rfl rfl rfl)
  exact ⟨rfl, rfl, hcall, s.unfile_unfiled r⟩

omit [DecidableEq Checksum] in
/-- Where nothing raises, the discarded record is that of `step`. -/
theorem discardRun_returns {s : Evaluations Member Checksum} {fades : Checksum → Bool} {r : Nat}
    (h : ∀ cs ∈ (s.work r).inputClaims, fades cs = false)
    (htask : (s.registry.records r).task = some .done) :
    s.discardRun fades r = (s.shared (.discard r)).releaseRefholds r := by
  have hclaims : ((s.unfile r).work r).inputClaims = (s.work r).inputClaims := rfl
  have hstep : s.registry.stepEvent (.discard r) = s.registry.discardActive r := if_pos htask
  unfold discardRun releaseRefholdsRun
  simp only [hclaims, giveBack_returns h]
  unfold shared
  rw [hstep]
  rfl

omit [DecidableEq Checksum] in
/-- So is the end of a synchronous owner. -/
theorem finishOwnerRun_returns {s : Evaluations Member Checksum} {fades : Checksum → Bool} {c : Nat}
    (h : ∀ cs ∈ (s.work (s.registry.calls c).record).inputClaims, fades cs = false)
    (hfuture : (s.registry.records (s.registry.calls c).record).resultFuture.isSome = true)
    (hcall : Registry.Unfinished s.registry c ∧ (s.registry.calls c).kind = .owns) :
    s.finishOwnerRun fades c =
      (s.shared (.finishOwner c)).releaseRefholds (s.registry.calls c).record := by
  obtain ⟨v, hv⟩ := Option.isSome_iff_exists.mp hfuture
  have hclaims : ((s.unfile (s.registry.calls c).record).work
      (s.registry.calls c).record).inputClaims =
        (s.work (s.registry.calls c).record).inputClaims := rfl
  have hstep : s.registry.stepEvent (.finishOwner c) = s.registry.finishOwner c v := by
    simp only [Registry.stepEvent, hv]
    exact if_pos hcall
  -- the result is still there when the call ends
  have hresult : (((s.unfile (s.registry.calls c).record).registry).records
      (s.registry.calls c).record).resultFuture = some v := by
    unfold unfile
    simp only
    rw [Registry.updateRecord_records, if_pos rfl, (Registry.cancelLinger_resultFuture _).1,
      Registry.popLingering_records, Registry.popActive_records]
    exact hv
  unfold finishOwnerRun releaseRefholdsRun
  simp only [hclaims, giveBack_returns h, if_true]
  unfold shared
  rw [hstep]
  have hended : (((s.unfile (s.registry.calls c).record).setWork (s.registry.calls c).record
      fun w => { w with inputClaims := [] }).registry.records
        (s.registry.calls c).record).resultFuture = some v := hresult
  rw [hended]
  rfl

/-! ## §9. Steps. -/

omit [DecidableEq Member] in
/-- A record is discarded by its callback, or before it by the task itself. -/
theorem discardRun_keeps {s t : Evaluations Member Checksum} (hs : s.Consistent) {X : Nat → Prop}
    (hregistry : Evolves X s.registry t.registry) (hwork : t.work = s.work)
    {a : Activity Member Checksum × (Checksum → Bool)} {r : Nat}
    (ha : s.releasing a.1 = some r) (hmade : s.Made r) (hended : s.registry.Ended r) :
    Keeps s a (t.discardRun a.2 r) := by
  obtain ⟨hwork', hcalls, hevolves, -⟩ := t.discardRun_spec a.2 r
  rw [hwork] at hwork' hcalls
  have hall : Evolves (fun _ => True) s.registry (t.discardRun a.2 r).1.registry :=
    (hregistry.mono fun _ _ => trivial).trans (hevolves.mono fun _ _ => trivial)
  exact release_keeps hs hall ha hmade hended hwork' hcalls

/-- The events of the registry, with what they do to claims -/
theorem stepShared_keeps {s : Evaluations Member Checksum} (hs : s.Consistent)
    (fades : Checksum → Bool) (e : Registry.Event Member) :
    Keeps s (.event e, fades) (s.stepRun (.event e, fades)) := by
  -- only the end of an owner and a discarded record move claims
  have hidle := idle_keeps hs (.event e, fades)
  have hshared := shared_keeps hs (.event e, fades)
  have hend := endWork_keeps hs (.event e, fades)
  cases e with
  | joinAsync m => exact hidle 0
  | joinSync m sameLoop => exact hidle 0
  | finishOwner c =>
    unfold stepRun
    simp only
    split
    next h =>
      obtain ⟨hwork, hcalls, hevolves, -⟩ := s.finishOwnerRun_spec fades c
      exact release_keeps hs hevolves rfl h.1 (.inl h.2.1) hwork hcalls
    next => exact hidle _
  | discard r =>
    unfold stepRun
    simp only
    split
    next h =>
      exact discardRun_keeps (a := (.event (.discard r), fades)) hs
        (Evolves.refl (fun _ => False) s.registry) rfl rfl h.1 (.inr h.2)
    next => exact hidle _
  | settleOwner c failed =>
    show Keeps s _ (s.stepShared (.settleOwner c failed))
    unfold stepShared
    simp only
    split
    · exact hend _ _
    · exact hidle _
  | settleTask r failed =>
    show Keeps s _ (s.stepShared (.settleTask r failed))
    unfold stepShared
    simp only
    split
    · exact hend _ _
    · exact hidle _
  | cancelTask r =>
    show Keeps s _ (s.stepShared (.cancelTask r))
    unfold stepShared
    simp only
    split
    · exact hend _ _
    · exact hidle _
  | dropTask r =>
    show Keeps s _ (s.stepShared (.dropTask r))
    unfold stepShared
    simp only
    split
    · exact hend _ _
    · exact hidle _
  | finishTask r =>
    show Keeps s _ (s.stepShared (.finishTask r))
    unfold stepShared
    simp only
    split
    · exact hidle _
    · exact hshared _ _
  | _ => exact hshared _ 0

/-- The step lemma of the evaluations, one case per activity. -/
theorem stepRun_keeps {s : Evaluations Member Checksum} (hs : s.Consistent)
    (a : Activity Member Checksum × (Checksum → Bool)) : Keeps s a (s.stepRun a) := by
  have hidle := idle_keeps hs a
  obtain ⟨a, fades⟩ := a
  cases a with
  | joinLocal m checksums => exact joinTask_keeps hs _ m false checksums none
  | joinRemote m checksums scratch => exact joinTask_keeps hs _ m true checksums (some scratch)
  | joinSync m sameLoop input => exact joinSync_keeps hs _ m sameLoop input
  | startRemote r =>
    show Keeps s _ (s.step (.startRemote r))
    unfold step
    simp only
    split
    · exact setWork_keeps hs _ r fun _ => rfl
    · exact hidle r
  | dispatch r =>
    show Keeps s _ (s.step (.dispatch r))
    unfold step
    simp only
    split
    · exact setWork_keeps hs _ r fun _ => rfl
    · exact hidle r
  | finishRemote r =>
    unfold stepRun
    simp only
    split
    next h =>
      -- the task ends first; then the record is discarded, whatever raises
      have hfinish : Evolves (s.registry.Ends (.finishTask r)) s.registry
          (s.shared (.finishTask r)).registry :=
        Registry.stepEvent_evolves s.registry (.finishTask r)
      exact discardRun_keeps (a := (.finishRemote r, fades)) hs hfinish rfl rfl h.1 (.inl h.2.2.2)
    next => exact hidle r
  | cancelWork r =>
    have hregistry : Evolves (fun _ => False) s.registry
        ({ s with registry := s.registry.updateRecord r Registry.requestCancel } :
          Evaluations Member Checksum).registry := Registry.requestCancel_evolves s.registry r
    exact quiet_keeps hs _ hregistry (fun _ => rfl) r
  | event e => exact stepShared_keeps hs fades e

/-- Where no claim that is given back raises, the two machines do the same. -/
theorem stepRun_eq {s : Evaluations Member Checksum} {a : Activity Member Checksum}
    {fades : Checksum → Bool} (h : ∀ cs, fades cs = false) : s.stepRun (a, fades) = s.step a := by
  have hclaims : ∀ r, ∀ cs ∈ (s.work r).inputClaims, fades cs = false := fun _ cs _ => h cs
  cases a with
  | finishRemote r =>
    unfold stepRun step
    simp only
    split
    next hguard =>
      refine discardRun_returns (hclaims r) ?_
      -- the task has just ended
      have hstep : s.registry.stepEvent (.finishTask r) = s.registry.finishTask r :=
        if_pos ⟨hguard.2.2.1, hguard.2.2.2⟩
      show ((s.registry.stepEvent (.finishTask r)).records r).task = some .done
      rw [hstep]
      unfold Registry.finishTask
      rw [Registry.popActive_records, Registry.updateRecord_records, if_pos rfl]
    next => rfl
  | event e =>
    cases e with
    | finishOwner c =>
      unfold stepRun step stepShared
      simp only
      split
      next hguard => exact finishOwnerRun_returns (hclaims _) hguard.2.1 hguard.2.2
      next => rfl
    | discard r =>
      unfold stepRun step stepShared
      simp only
      split
      next hguard => exact discardRun_returns (hclaims r) hguard.2
      next => rfl
    | _ => rfl
  | _ => rfl

/-- So `step` keeps the invariant too. -/
theorem step_consistent {s : Evaluations Member Checksum} (hs : s.Consistent)
    (a : Activity Member Checksum) : (s.step a).1.Consistent := by
  have hrun := stepRun_keeps hs (a, fun _ => false)
  rw [stepRun_eq fun _ => rfl] at hrun
  exact hrun.consistent

omit [DecidableEq Member] [DecidableEq Checksum] in
theorem initial_consistent (m : Member) :
    (initial m : Evaluations Member Checksum).Consistent := by
  refine ⟨.inl rfl, ?_, fun _ _ => rfl⟩
  rintro r (h | h) <;> cases h

end Evaluations

end SeamlessCore.Expression
