/-
  SeamlessCore.Expression.Scratch — requests that want their result written.

  A remote record sends one request, with the setting of `scratch` that its
  calls have agreed on by then: any call with `scratch=False` makes it
  non-scratch.  A call that joins after the request was sent gets its answer
  without a say in it.

  Main results:
    * `stepEvent_progress` — what an event does to calls, waiters and results;
    * `step_honest` — the requests that a record answers, activity by activity;
    * `scratchHonoured` — over all runs in which no non-scratch call joins a
      scratch request that was sent;
    * `lateJoin_unwritten` — such a call is answered, and nothing is written.
-/
import SeamlessCore.Expression.Claims

namespace SeamlessCore.Expression

namespace Registry

variable {Member : Type}

/-! ## §1. Calls and their answers. -/

/-- The verdict is that of the call's record, or a cancellation. -/
def Tells (s : Registry Member) (c : Nat) (v : Verdict) : Prop :=
  v = .cancelled ∨ (s.recordOf c).resultFuture = some v

/-- What a waiting call gets comes from its record. -/
def Told (s : Registry Member) : Prop :=
  ∀ c, c < s.callCount → (s.calls c).record < s.recordCount ∧
    (∀ v, (s.calls c).waiter = some v → s.Tells c v) ∧
    ((s.calls c).kind = .awaits → ∀ v, (s.calls c).ended = some v → s.Tells c v)

/-- What may become of calls and results, where only records of `X` succeed. -/
structure Progress (X : Nat → Prop) (s t : Registry Member) : Prop where
  callCount : t.callCount = s.callCount
  recordCount : s.recordCount ≤ t.recordCount
  kept : ∀ c, c < s.callCount →
    (t.calls c).record = (s.calls c).record ∧ (t.calls c).kind = (s.calls c).kind
  succeeds : ∀ r, (t.records r).resultFuture = some .result →
    (s.records r).resultFuture = some .result ∨ X r
  told : s.Told → t.Told

theorem Progress.refl (X : Nat → Prop) (s : Registry Member) : Progress X s s :=
  ⟨rfl, Nat.le_refl _, fun _ _ => ⟨rfl, rfl⟩, fun _ h => .inl h, id⟩

theorem Progress.trans {X : Nat → Prop} {s t u : Registry Member} (h : Progress X s t)
    (h' : Progress X t u) : Progress X s u := by
  have hcalls := h.callCount
  refine ⟨h'.callCount.trans hcalls, h.recordCount.trans h'.recordCount, ?_, ?_,
    fun hs => h'.told (h.told hs)⟩
  · intro c hc
    obtain ⟨hrecord, hkind⟩ := h.kept c hc
    obtain ⟨hrecord', hkind'⟩ := h'.kept c (by omega)
    exact ⟨hrecord'.trans hrecord, hkind'.trans hkind⟩
  · intro r hr
    rcases h'.succeeds r hr with ht | hx
    · exact h.succeeds r ht
    · exact .inr hx

variable {X : Nat → Prop}

/-- An update of records that keeps results. -/
theorem progress_of_records {s t : Registry Member} (hcalls : t.calls = s.calls)
    (hcallCount : t.callCount = s.callCount) (hrecordCount : s.recordCount ≤ t.recordCount)
    (hkeeps : ∀ r v, r < s.recordCount → (s.records r).resultFuture = some v →
      (t.records r).resultFuture = some v)
    (hsucceeds : ∀ r, (t.records r).resultFuture = some .result →
      (s.records r).resultFuture = some .result ∨ X r) : Progress X s t := by
  refine ⟨hcallCount, hrecordCount, ?_, hsucceeds, ?_⟩
  · intro c _
    rw [hcalls]
    exact ⟨rfl, rfl⟩
  · intro hs c hc
    rw [hcallCount] at hc
    obtain ⟨hbound, hwaiter, hended⟩ := hs c hc
    have htells : ∀ v, s.Tells c v → t.Tells c v := by
      intro v hv
      unfold Tells recordOf at hv ⊢
      rw [hcalls]
      rcases hv with hv | hv
      · exact .inl hv
      · exact .inr (hkeeps _ v hbound hv)
    rw [hcalls]
    exact ⟨by omega, fun v hv => htells v (hwaiter v hv),
      fun hkind v hv => htells v (hended hkind v hv)⟩

/-- An update of one record that keeps its result, or settles it. -/
theorem updateRecord_progress (s : Registry Member) (r : Nat)
    (f : ActiveExpression Member → ActiveExpression Member)
    (hkeeps : ∀ v, (s.records r).resultFuture = some v →
      (f (s.records r)).resultFuture = some v)
    (hsucceeds : (f (s.records r)).resultFuture = some .result →
      (s.records r).resultFuture = some .result ∨ X r) :
    Progress X s (s.updateRecord r f) := by
  refine progress_of_records rfl rfl (Nat.le_refl _) ?_ ?_
  · intro r' v _ hv
    rw [updateRecord_records]
    split
    next h =>
      rw [h] at hv
      exact hkeeps v hv
    next => exact hv
  · intro r' hr'
    rw [updateRecord_records] at hr'
    split at hr'
    next h =>
      rw [h]
      exact hsucceeds hr'
    next => exact .inl hr'

theorem updateRecord_progress_of_eq (s : Registry Member) (r : Nat)
    (f : ActiveExpression Member → ActiveExpression Member)
    (hf : ∀ a, (f a).resultFuture = a.resultFuture) : Progress X s (s.updateRecord r f) := by
  apply updateRecord_progress
  · intro v hv
    rw [hf]
    exact hv
  · intro h
    rw [hf] at h
    exact .inl h

/-- The maps do not matter. -/
theorem progress_of_maps {s t : Registry Member} (hrecords : t.records = s.records)
    (hrecordCount : t.recordCount = s.recordCount) (hcalls : t.calls = s.calls)
    (hcallCount : t.callCount = s.callCount) : Progress X s t := by
  refine progress_of_records hcalls hcallCount (Nat.le_of_eq hrecordCount.symm) ?_ ?_
  · intro r v _ hv
    rw [hrecords]
    exact hv
  · intro r hr
    rw [hrecords] at hr
    exact .inl hr

/-- An update of one call that keeps what it is about, with answers that are told. -/
theorem updateCall_progress (s : Registry Member) (c : Nat) (f : Call Member → Call Member)
    (hrecord : (f (s.calls c)).record = (s.calls c).record)
    (hkind : (f (s.calls c)).kind = (s.calls c).kind)
    (hwaiter : ∀ v, (f (s.calls c)).waiter = some v → (s.calls c).waiter = some v ∨ s.Tells c v)
    (hended : s.Told → c < s.callCount → (s.calls c).kind = .awaits → ∀ v,
      (f (s.calls c)).ended = some v → (s.calls c).ended = some v ∨ s.Tells c v) :
    Progress X s (s.updateCall c f) := by
  refine ⟨rfl, Nat.le_refl _, ?_, fun _ h => .inl h, ?_⟩
  · intro d _
    rw [updateCall_calls]
    split
    next h =>
      rw [h]
      exact ⟨hrecord, hkind⟩
    next => exact ⟨rfl, rfl⟩
  · intro hs d hd
    obtain ⟨hbound, hw, he⟩ := hs d hd
    -- the record of a call tells what it told
    have htells : ∀ v, s.Tells d v → (s.updateCall c f).Tells d v := by
      intro v hv
      unfold Tells recordOf at hv ⊢
      rw [updateCall_calls]
      split
      next h =>
        rw [hrecord, ← h]
        exact hv
      next => exact hv
    rw [updateCall_calls]
    split
    next h =>
      rw [h] at hbound hw he hd htells
      rw [h]
      refine ⟨by rw [hrecord]; exact hbound, fun v hv => htells v ?_, fun hk v hv => htells v ?_⟩
      · rcases hwaiter v hv with hv | hv
        · exact hw v hv
        · exact hv
      · rw [hkind] at hk
        rcases hended hs hd hk v hv with hv | hv
        · exact he hk v hv
        · exact hv
    next => exact ⟨hbound, fun v hv => htells v (hw v hv), fun hk v hv => htells v (he hk v hv)⟩

/-- Marks on calls -/
theorem progress_of_calls {s t : Registry Member} (hrecords : t.records = s.records)
    (hrecordCount : t.recordCount = s.recordCount) (hcallCount : t.callCount = s.callCount)
    (hcalls : ∀ c, (t.calls c).record = (s.calls c).record ∧ (t.calls c).kind = (s.calls c).kind ∧
      (t.calls c).waiter = (s.calls c).waiter ∧ (t.calls c).ended = (s.calls c).ended) :
    Progress X s t := by
  refine ⟨hcallCount, Nat.le_of_eq hrecordCount.symm, ?_, ?_, ?_⟩
  · intro c _
    exact ⟨(hcalls c).1, (hcalls c).2.1⟩
  · intro r hr
    rw [hrecords] at hr
    exact .inl hr
  · intro hs c hc
    obtain ⟨hrecord, hkind, hwaiter, hended⟩ := hcalls c
    rw [hcallCount] at hc
    unfold Tells recordOf
    rw [hrecord, hkind, hwaiter, hended, hrecords, hrecordCount]
    exact hs c hc

/-- One more call, which has no answer yet. -/
theorem addCall_told {s : Registry Member} (hs : s.Told) {call : Call Member}
    (hrecord : call.record < s.recordCount) (hwaiter : call.waiter = none)
    (hended : call.ended = none) : (s.addCall call).Told := by
  intro c hc
  have hc' : c < s.callCount + 1 := hc
  by_cases hnew : c = s.callCount
  · rw [addCall_calls, if_pos hnew, hwaiter, hended]
    exact ⟨hrecord, (fun _ h => by cases h), (fun _ _ h => by cases h)⟩
  · obtain ⟨hbound, hw, he⟩ := hs c (by omega)
    have htells : ∀ v, s.Tells c v → (s.addCall call).Tells c v := by
      intro v hv
      unfold Tells recordOf at hv ⊢
      rw [addCall_calls, if_neg hnew]
      exact hv
    rw [addCall_calls, if_neg hnew]
    exact ⟨hbound, fun v hv => htells v (hw v hv), fun hk v hv => htells v (he hk v hv)⟩

/-! ## §2. Operations. -/

theorem createRecord_progress (s : Registry Member) (task : Option TaskState) :
    Progress X s (s.createRecord task) := by
  refine progress_of_records rfl rfl (Nat.le_succ _) ?_ ?_
  · intro r v hr hv
    show (Function.update s.records s.recordCount _ r).resultFuture = _
    rw [Function.update_of_ne (by omega)]
    exact hv
  · intro r hr
    left
    have hr' : (Function.update s.records s.recordCount (newRecord task) r).resultFuture =
        some .result := hr
    by_cases hnew : r = s.recordCount
    · rw [hnew, Function.update_self] at hr'
      cases hr'
    · rw [Function.update_of_ne hnew] at hr'
      exact hr'

theorem obtain_progress (s : Registry Member) (task : Option TaskState) :
    Progress X s (s.obtain task).2.2 := by
  have hpop : Progress X s { s with lingering := none } := progress_of_maps rfl rfl rfl rfl
  unfold obtain findRecord
  cases s.active with
  | some r =>
    simp only
    split
    · exact createRecord_progress s task
    · exact progress_of_maps rfl rfl rfl rfl
  | none =>
    cases s.lingering with
    | none => exact hpop.trans (createRecord_progress _ task)
    | some r =>
      simp only
      split
      · exact hpop.trans (createRecord_progress _ task)
      · exact progress_of_maps rfl rfl rfl rfl

/-- The record that a call finds or makes is one of the registry. -/
theorem obtain_lt {s : Registry Member} (hs : ∀ r, s.InMaps r → r < s.recordCount)
    (task : Option TaskState) : (s.obtain task).1 < (s.obtain task).2.2.recordCount := by
  rcases obtain_cases s task with ⟨-, hr, hcount⟩ | ⟨-, hr, hcount⟩
  · omega
  · have hlt := hs _ hr
    omega

theorem popActive_progress (s : Registry Member) (r : Nat) : Progress X s (s.popActive r) := by
  unfold popActive
  split
  · exact progress_of_maps rfl rfl rfl rfl
  · exact .refl X s

theorem popLingering_progress (s : Registry Member) (r : Nat) :
    Progress X s (s.popLingering r) := by
  unfold popLingering
  split
  · exact progress_of_maps rfl rfl rfl rfl
  · exact .refl X s

theorem cancelLinger_progress (s : Registry Member) (r : Nat) :
    Progress X s (s.updateRecord r cancelLinger) :=
  updateRecord_progress_of_eq s r cancelLinger fun a => (cancelLinger_resultFuture a).1

theorem settle_resultFuture (a : ActiveExpression Member) (v v' : Verdict)
    (h : a.resultFuture = some v') : (settle a v).resultFuture = some v' := by
  unfold settle
  rw [h]
  exact h

theorem settle_progress (s : Registry Member) {r : Nat} {v : Verdict}
    (hX : v = .result → X r) : Progress X s (s.updateRecord r fun a => settle a v) := by
  apply updateRecord_progress
  · intro v' hv'
    exact settle_resultFuture _ v v' hv'
  · intro h
    unfold settle at h
    split at h
    · exact .inl h
    · exact .inr (hX (Option.some.inj h))

variable [DecidableEq Member]

omit [DecidableEq Member] in
theorem queueCancel_progress (s : Registry Member) (c : Option Nat) :
    Progress X s (s.queueCancel c) := by
  cases c with
  | none => exact .refl X s
  | some c =>
    exact updateCall_progress s c (fun call => { call with cancelQueued := true }) rfl rfl
      (fun _ h => .inl h) fun _ _ _ _ h => .inl h

theorem removeMember_progress (s : Registry Member) (r : Nat) (m : Member) :
    Progress X s (s.removeMember r m) := by
  have hupdate : Progress X s (s.updateRecord r fun a =>
      { a with members := a.members.erase m, waiters := Function.update a.waiters m none }) :=
    updateRecord_progress_of_eq s r _ fun _ => rfl
  exact hupdate.trans (queueCancel_progress _ _)

theorem softcancel_progress (s : Registry Member) (m : Member) :
    Progress X s (s.softcancel m).1 := by
  unfold softcancel
  cases s.active with
  | none => exact .refl X s
  | some r =>
    simp only
    split
    · exact .refl X s
    · have hremove := removeMember_progress (X := X) s r m
      split
      · split
        · exact hremove
        · have hmove : Progress X (s.removeMember r m)
              { s.removeMember r m with active := none, lingering := some r } :=
            progress_of_maps rfl rfl rfl rfl
          exact (hremove.trans hmove).trans (updateRecord_progress_of_eq _ r
            (fun a => { a with schedules := a.schedules + 1 }) fun _ => rfl)
      · exact hremove

/-- A call ends with what it was told, or was an owner or blocked. -/
theorem endCall_progress (s : Registry Member) (c : Nat) (v : Verdict)
    (hv : s.Told → c < s.callCount → (s.calls c).kind = .awaits → s.Tells c v) :
    Progress X s (s.endCall c v) := by
  have hended : Progress X s (s.updateCall c fun call => { call with ended := some v }) := by
    refine updateCall_progress s c _ rfl rfl (fun _ h => .inl h) ?_
    intro hs hc hk v' hv'
    rw [← Option.some.inj hv']
    exact .inr (hv hs hc hk)
  exact hended.trans (softcancel_progress _ (s.calls c).member)

theorem joinExpression_progress (s : Registry Member) (r : Nat) (m : Member) (c : Nat) :
    Progress X s (s.joinExpression r m c) :=
  updateRecord_progress_of_eq s r _ fun a => (cancelLinger_resultFuture a).1

/-- The registry before the call of a task's join is added. -/
def entered (s : Registry Member) (m : Member) : Registry Member :=
  (s.obtain (some .running)).2.2.joinExpression (s.obtain (some .running)).1 m
    (s.obtain (some .running)).2.2.callCount

theorem entered_progress (s : Registry Member) (m : Member) : Progress X s (s.entered m) := by
  have hobtain : Progress X s (s.obtain (some .running)).2.2 := obtain_progress s _
  exact hobtain.trans (joinExpression_progress _ _ _ _)

theorem joinAsync_eq (s : Registry Member) (m : Member) :
    s.joinAsync m = (s.entered m).addCall
      ⟨m, (s.obtain (some .running)).1, .awaits, none, false, false, none⟩ := rfl

/-- A synchronous call leaves again at once, or is added; an owner comes with a new
record. -/
theorem joinSync_cases (s : Registry Member) (m : Member) (sameLoop : Bool) :
    ∃ t, Progress X s t ∧ t.recordCount = (s.obtain none).2.2.recordCount ∧
      (s.joinSync m sameLoop = t ∨
        ∃ kind, s.joinSync m sameLoop =
            t.addCall ⟨m, (s.obtain none).1, kind, none, false, false, none⟩ ∧
          (kind = .owns → (s.obtain none).2.1 = true)) := by
  have hobtain : Progress X s (s.obtain none).2.2 := obtain_progress s _
  have hjoin := hobtain.trans (updateRecord_progress_of_eq (s.obtain none).2.2 (s.obtain none).1
    (fun a => { a with members := insert m a.members }) fun _ => rfl)
  unfold joinSync
  simp only
  split
  next hcreated => exact ⟨_, hjoin, rfl, .inr ⟨.owns, rfl, fun _ => hcreated⟩⟩
  next =>
    split
    · exact ⟨_, hjoin.trans (softcancel_progress _ m), softcancel_recordCount _ m, .inl rfl⟩
    · exact ⟨_, hjoin, rfl, .inr ⟨.blocks, rfl, (fun h => by cases h)⟩⟩

/-! ## §3. Events. -/

/-- The records that an event may bring to a result. -/
def Succeeds (s : Registry Member) : Event Member → Nat → Prop
  | .settleOwner c failed, r => failed = false ∧ r = (s.calls c).record
  | .settleTask r' failed, r => failed = false ∧ r = r'
  | _, _ => False

theorem succeeds_of_workVerdict {failed : Bool} (h : workVerdict failed = .result) :
    failed = false := by
  cases failed with
  | false => rfl
  | true => cases h

/-- A call joins. -/
def IsJoin : Event Member → Prop
  | .joinAsync _ | .joinSync _ _ => True
  | _ => False

/-- The step lemma of calls and results, one case per event. -/
theorem stepEvent_progress (s : Registry Member) {e : Event Member} (he : ¬ IsJoin e) :
    Progress (s.Succeeds e) s (s.stepEvent e) := by
  cases e with
  | joinAsync m => exact absurd trivial he
  | joinSync m sameLoop => exact absurd trivial he
  | cancelCall c =>
    simp only [stepEvent]
    split
    · have htargeted : Progress (s.Succeeds (.cancelCall c)) s
          (s.updateCall c fun call => { call with targeted := true }) :=
        updateCall_progress s c _ rfl rfl (fun _ h => .inl h) fun _ _ _ _ h => .inl h
      exact htargeted.trans (endCall_progress _ _ _ fun _ _ _ => .inl rfl)
    · exact .refl _ s
  | softcancel m =>
    have htarget : Progress (s.Succeeds (.softcancel m)) s (s.target m) := by
      refine progress_of_calls rfl rfl rfl fun c => ?_
      unfold target
      simp only
      split <;> exact ⟨rfl, rfl, rfl, rfl⟩
    exact htarget.trans (softcancel_progress (s.target m) m)
  | deliverCancel c =>
    simp only [stepEvent]
    split
    · refine updateCall_progress s c _ rfl rfl ?_ fun _ _ _ _ h => .inl h
      intro v hv
      have hv' : (if (s.calls c).waiter.isSome = true then (s.calls c).waiter
        else some .cancelled) = some v := hv
      split at hv'
      · exact .inl hv'
      · exact .inr (.inl (Option.some.inj hv').symm)
    · exact .refl _ s
  | deliverResult c =>
    simp only [stepEvent]
    split
    · exact .refl _ s
    next v hfuture =>
      split
      · refine updateCall_progress s c _ rfl rfl ?_ fun _ _ _ _ h => .inl h
        intro v' hv'
        rw [← Option.some.inj hv']
        exact .inr (.inr hfuture)
      · exact .refl _ s
  | resume c =>
    simp only [stepEvent]
    split
    · split
      · exact .refl _ s
      · split
        · exact .refl _ s
        next v hwaiter =>
          refine endCall_progress _ _ _ fun htold hc _ => ?_
          exact (htold c hc).2.1 v hwaiter
      next hkind =>
        split
        · exact .refl _ s
        · refine endCall_progress _ _ _ fun _ _ hk => ?_
          rw [hkind] at hk
          cases hk
    · exact .refl _ s
  | schedule r =>
    simp only [stepEvent]
    unfold schedule
    simp only
    split
    · exact .refl _ s
    · split
      · exact updateRecord_progress_of_eq s r _ fun _ => rfl
      · exact updateRecord_progress_of_eq s r _ fun _ => rfl
  | expire r h =>
    simp only [stepEvent]
    unfold expire
    split
    · exact .refl _ s
    · have htimer : Progress (s.Succeeds (.expire r h)) s
          (s.updateRecord r fun a => { a with timers := a.timers.erase h }) :=
        updateRecord_progress_of_eq s r _ fun _ => rfl
      simp only
      split
      · exact htimer
      · have hpop : Progress (s.Succeeds (.expire r h)) s
            { s.updateRecord r (fun a => { a with timers := a.timers.erase h }) with
              lingering := none } :=
          htimer.trans (progress_of_maps rfl rfl rfl rfl)
        split
        · refine hpop.trans (updateRecord_progress_of_eq _ r requestCancel fun a => ?_)
          unfold requestCancel
          split <;> rfl
        · exact hpop
  | settleOwner c failed =>
    simp only [stepEvent]
    split
    · exact settle_progress s fun h => ⟨succeeds_of_workVerdict h, rfl⟩
    · exact .refl _ s
  | finishOwner c =>
    simp only [stepEvent]
    split
    · exact .refl _ s
    next v _ =>
      split
      next h =>
        have hpop := (popActive_progress (X := s.Succeeds (.finishOwner c)) s
          (s.calls c).record).trans (popLingering_progress _ (s.calls c).record)
        refine (hpop.trans (cancelLinger_progress _ (s.calls c).record)).trans ?_
        -- an owner does not wait for what it is told
        refine updateCall_progress _ c (fun call => { call with ended := some v }) rfl rfl
          (fun _ h => .inl h) fun _ _ hk => ?_
        have hcalls : ((((s.popActive (s.calls c).record).popLingering
            (s.calls c).record).updateRecord (s.calls c).record cancelLinger).calls c).kind =
              (s.calls c).kind := by
          show (((s.popActive (s.calls c).record).popLingering (s.calls c).record).calls c).kind = _
          rw [popLingering_calls, popActive_calls]
        rw [hcalls, h.2] at hk
        cases hk
      next => exact .refl _ s
  | settleTask r failed =>
    simp only [stepEvent]
    split
    · exact settle_progress s fun h => ⟨succeeds_of_workVerdict h, rfl⟩
    · exact .refl _ s
  | cancelTask r =>
    simp only [stepEvent]
    split
    · exact settle_progress s fun h => by cases h
    · exact .refl _ s
  | finishTask r =>
    simp only [stepEvent]
    split
    · have htask : Progress (s.Succeeds (.finishTask r)) s
          (s.updateRecord r fun a => { a with task := some .done }) :=
        updateRecord_progress_of_eq s r _ fun _ => rfl
      exact htask.trans (popActive_progress _ r)
    · exact .refl _ s
  | dropTask r =>
    simp only [stepEvent]
    split
    · exact updateRecord_progress_of_eq s r _ fun _ => rfl
    · exact .refl _ s
  | discard r =>
    simp only [stepEvent]
    split
    · have hpop := (popActive_progress (X := s.Succeeds (.discard r)) s r).trans
        (popLingering_progress _ r)
      exact (hpop.trans (cancelLinger_progress _ r)).trans
        (settle_progress _ fun h => by cases h)
    · exact .refl _ s

end Registry

/-! ## §4. Requests. -/

variable {Member Checksum : Type} [DecidableEq Member] [DecidableEq Checksum]

namespace Work

/-- The request of a record was not sent, and will not be a scratch one; or it was
sent, and was not. -/
def Writes (w : Work Checksum) : Prop :=
  (w.sent = none ∧ w.scratch = false) ∨ w.sent = some false

/-- What an activity may do to the request of a record. -/
structure Proceeds (w w' : Work Checksum) : Prop where
  remote : w'.remote = w.remote
  sent : w.sent.isSome = true → w'.sent.isSome = true
  writes : w.Writes → w'.Writes

omit [DecidableEq Checksum] in
theorem Proceeds.refl (w : Work Checksum) : w.Proceeds w := ⟨rfl, id, id⟩

omit [DecidableEq Checksum] in
/-- The setting can only be lowered before the request is sent. -/
theorem proceeds_demand (w : Work Checksum) (b : Bool) :
    w.Proceeds { w with scratch := w.scratch && b } := by
  refine ⟨rfl, id, ?_⟩
  rintro (⟨hsent, hscratch⟩ | hsent)
  · left
    refine ⟨hsent, ?_⟩
    show (w.scratch && b) = false
    rw [hscratch]
    rfl
  · exact .inr hsent

end Work

namespace Evaluations

open Registry (Progress)

/-- The invariant of the requests of a key. -/
structure Honest (s : Evaluations Member Checksum) : Prop where
  told : s.registry.Told
  owners : ∀ c, c < s.registry.callCount → (s.registry.calls c).kind = .owns →
    (s.work (s.registry.calls c).record).remote = false
  /-- A remote result is the answer to a request. -/
  answered : ∀ r, (s.work r).remote = true →
    (s.registry.records r).resultFuture = some .result → (s.work r).sent.isSome = true
  requests : ∀ c, s.requestScratch c = some false → c < s.registry.callCount ∧
    (s.registry.calls c).kind = .awaits ∧
    ((s.work (s.registry.calls c).record).remote = true →
      (s.work (s.registry.calls c).record).Writes)

omit [DecidableEq Member] [DecidableEq Checksum] in
/-- The invariant, from the registry and the single records; `X` may succeed. -/
theorem honest_of_progress {s t : Evaluations Member Checksum} (hs : s.Honest) {X : Nat → Prop}
    (hregistry : Progress X s.registry t.registry)
    (hX : ∀ r, X r → (t.work r).remote = true → (t.work r).sent.isSome = true)
    (hwork : ∀ r, (s.work r).Proceeds (t.work r) ∨ (s.registry.recordCount ≤ r ∧
      (t.registry.records r).resultFuture ≠ some .result))
    (hscratch : t.requestScratch = s.requestScratch) : t.Honest := by
  -- the record of a call is not a new one
  have hold : ∀ c, c < s.registry.callCount →
      (s.work (s.registry.calls c).record).Proceeds (t.work (s.registry.calls c).record) := by
    intro c hc
    have hbound := (hs.told c hc).1
    rcases hwork (s.registry.calls c).record with h | h
    · exact h
    · omega
  refine ⟨hregistry.told hs.told, ?_, ?_, ?_⟩
  · intro c hc hkind
    rw [hregistry.callCount] at hc
    obtain ⟨hrecord, hkind'⟩ := hregistry.kept c hc
    rw [hkind'] at hkind
    rw [hrecord, (hold c hc).remote]
    exact hs.owners c hc hkind
  · intro r hremote hresult
    rcases hwork r with h | h
    · rcases hregistry.succeeds r hresult with hresult' | hx
      · rw [h.remote] at hremote
        exact h.sent (hs.answered r hremote hresult')
      · exact hX r hx hremote
    · exact absurd hresult h.2
  · intro c hc
    rw [hscratch] at hc
    obtain ⟨hcount, hkind, hwrites⟩ := hs.requests c hc
    obtain ⟨hrecord, hkind'⟩ := hregistry.kept c hcount
    refine ⟨by rw [hregistry.callCount]; exact hcount, hkind'.trans hkind, fun hremote => ?_⟩
    rw [hrecord] at hremote ⊢
    rw [(hold c hcount).remote] at hremote
    exact (hold c hcount).writes (hwrites hremote)

omit [DecidableEq Member] [DecidableEq Checksum] in
/-- One more call, with its setting of `scratch`. -/
theorem honest_addCall {s t : Evaluations Member Checksum} (hs : s.Honest)
    {call : Call Member} (scratch : Option Bool)
    (hregistry : t.registry = s.registry.addCall call) (hwork : t.work = s.work)
    (hscratch : t.requestScratch = Function.update s.requestScratch s.registry.callCount scratch)
    (hrecord : call.record < s.registry.recordCount) (hwaiter : call.waiter = none)
    (hended : call.ended = none)
    (howner : call.kind = .owns → (s.work call.record).remote = false)
    (hrequest : scratch = some false → call.kind = .awaits ∧
      ((s.work call.record).remote = true → (s.work call.record).Writes)) : t.Honest := by
  have hcount : t.registry.callCount = s.registry.callCount + 1 := by
    rw [hregistry]
    rfl
  refine ⟨?_, ?_, ?_, ?_⟩
  · rw [hregistry]
    exact Registry.addCall_told hs.told hrecord hwaiter hended
  · intro c hc hkind
    rw [hregistry, Registry.addCall_calls] at hkind ⊢
    rw [hwork]
    split at hkind
    next h =>
      rw [if_pos h]
      exact howner hkind
    next h =>
      rw [if_neg h]
      exact hs.owners c (by omega) hkind
  · intro r hremote hresult
    rw [hwork] at hremote ⊢
    rw [hregistry] at hresult
    exact hs.answered r hremote hresult
  · intro c hc
    rw [hscratch] at hc
    rw [hcount, hregistry, Registry.addCall_calls, hwork]
    by_cases hnew : c = s.registry.callCount
    · rw [hnew, Function.update_self] at hc
      rw [if_pos hnew]
      exact ⟨by omega, hrequest hc⟩
    · rw [Function.update_of_ne hnew] at hc
      rw [if_neg hnew]
      obtain ⟨hlt, hrest⟩ := hs.requests c hc
      exact ⟨by omega, hrest⟩

/-- A call that wants its result written joins after a scratch request was sent. -/
def JoinsLate (s : Evaluations Member Checksum) : Activity Member Checksum → Prop
  | .joinRemote _ _ false =>
    (s.registry.obtain (some .running)).2.1 = false ∧
      (s.work (s.registry.obtain (some .running)).1).remote = true ∧
      (s.work (s.registry.obtain (some .running)).1).sent = some true
  | _ => False

theorem joinTask_requestScratch (s : Evaluations Member Checksum) (m : Member)
    (remote : Bool) (checksums : List Checksum) (scratch : Option Bool) :
    (s.joinTask m remote checksums scratch).1.requestScratch =
      Function.update s.requestScratch s.registry.callCount scratch := by
  unfold joinTask
  rcases s.registry.obtain (some .running) with ⟨r, created, reg⟩
  simp only
  rw [demandScratch_eq]
  cases created <;> rfl

/-- A task joins a record that will write, if the call wants so. -/
theorem joinTask_honest {s : Evaluations Member Checksum} (hs : s.Honest) (hc : s.Consistent)
    (m : Member) (remote : Bool) (checksums : List Checksum) (scratch : Option Bool)
    (hlate : scratch = some false → (s.registry.obtain (some .running)).2.1 = false →
      (s.work (s.registry.obtain (some .running)).1).remote = true →
      (s.work (s.registry.obtain (some .running)).1).sent ≠ some true) :
    (s.joinTask m remote checksums scratch).1.Honest := by
  have hlt : (s.registry.obtain (some .running)).1 < (s.registry.entered m).recordCount :=
    Registry.obtain_lt hc.bounded (some .running)
  have hprogress : Progress (fun _ => False) s.registry (s.registry.entered m) :=
    Registry.entered_progress s.registry m
  -- it is enough to look at the record before the call is added
  have hcall : ∀ w : Nat → Work Checksum,
      (s.joinTask m remote checksums scratch).1.registry = s.registry.joinAsync m →
      (s.joinTask m remote checksums scratch).1.work = w →
      (∀ r, (s.work r).Proceeds (w r) ∨ (s.registry.recordCount ≤ r ∧
        ((s.registry.entered m).records r).resultFuture ≠ some .result)) →
      (scratch = some false → (w (s.registry.obtain (some .running)).1).remote = true →
        (w (s.registry.obtain (some .running)).1).Writes) →
      (s.joinTask m remote checksums scratch).1.Honest := by
    intro w hregistry hwork hproceeds hwrites
    have hhonest : (⟨s.registry.entered m, w, s.requestScratch⟩ :
        Evaluations Member Checksum).Honest :=
      honest_of_progress hs hprogress (fun _ h => h.elim) hproceeds rfl
    refine honest_addCall hhonest scratch (hregistry.trans (Registry.joinAsync_eq s.registry m)) hwork
      ?_ hlt rfl rfl (fun h => by cases h) fun hb => ⟨rfl, hwrites hb⟩
    rw [joinTask_requestScratch]
    exact congrArg (fun c => Function.update s.requestScratch c scratch) hprogress.callCount.symm
  rcases Registry.obtain_cases s.registry (some .running) with
    ⟨hcreated, hr, hcount⟩ | ⟨hcreated, -, -⟩
  · obtain ⟨hregistry, hwork, -⟩ := joinTask_made m remote checksums scratch hcreated
    refine hcall _ hregistry hwork ?_ ?_
    · intro r
      by_cases hnew : r = (s.registry.obtain (some .running)).1
      · right
        rw [hnew]
        refine ⟨by omega, ?_⟩
        -- a new record has no result
        intro hresult
        have hevolves : Registry.Evolves (fun _ => False) s.registry (s.registry.joinAsync m) :=
          Registry.joinAsync_evolves s.registry m
        refine hevolves.fresh _ (by omega) hlt (.inl ?_)
        have hresult' : ((s.registry.joinAsync m).records
            (s.registry.obtain (some .running)).1).resultFuture = some .result := hresult
        rw [hresult']
        rfl
      · left
        rw [Function.update_of_ne hnew]
        exact Work.Proceeds.refl _
    · intro hb _
      rw [Function.update_self, hb]
      exact .inl ⟨rfl, rfl⟩
  · obtain ⟨hregistry, hwork, -⟩ := joinTask_found m remote checksums scratch hcreated
    refine hcall _ hregistry hwork ?_ ?_
    · intro r
      left
      by_cases hr : r = (s.registry.obtain (some .running)).1
      · rw [hr, Function.update_self]
        exact Work.proceeds_demand _ _
      · rw [Function.update_of_ne hr]
        exact Work.Proceeds.refl _
    · intro hb hremote
      rw [Function.update_self] at hremote ⊢
      have hsent := hlate hb hcreated hremote
      -- the setting is lowered in time, or the request was sent without it
      cases h : (s.work (s.registry.obtain (some .running)).1).sent with
      | none =>
        left
        refine ⟨h, ?_⟩
        rw [hb]
        exact Bool.and_false _
      | some b =>
        cases b with
        | false => exact .inr h
        | true => exact absurd h hsent

theorem joinSync_honest {s : Evaluations Member Checksum} (hs : s.Honest) (hc : s.Consistent)
    (m : Member) (sameLoop : Bool) (input : Checksum) :
    (s.joinSync m sameLoop input).1.Honest := by
  have hlt := Registry.obtain_lt hc.bounded none
  have hevolves : Registry.Evolves (fun _ => False) s.registry (s.registry.joinSync m sameLoop) :=
    Registry.joinSync_evolves s.registry m sameLoop
  obtain ⟨t, hprogress, hcount, hcases⟩ :=
    Registry.joinSync_cases (X := fun _ => False) s.registry m sameLoop
  -- the fields of the records, with those of a new one
  have hfields : ∃ w : Nat → Work Checksum,
      (s.joinSync m sameLoop input).1 = ⟨s.registry.joinSync m sameLoop, w, s.requestScratch⟩ ∧
      (∀ r, r ≠ (s.registry.obtain none).1 → w r = s.work r) ∧
      ((s.registry.obtain none).2.1 = true → (w (s.registry.obtain none).1).remote = false) ∧
      ((s.registry.obtain none).2.1 = false → w = s.work) := by
    unfold joinSync
    rcases s.registry.obtain none with ⟨r, created, reg⟩
    cases created with
    | true =>
      refine ⟨Function.update s.work r (.opened false [input].eraseDups), rfl, ?_, ?_,
        (fun h => by cases h)⟩
      · intro r' hr'
        exact Function.update_of_ne hr' _ _
      · intro _
        rw [Function.update_self]
        rfl
    | false => exact ⟨s.work, rfl, fun _ _ => rfl, (fun h => by cases h), fun _ => rfl⟩
  obtain ⟨w, hout, hother, hnew, hold⟩ := hfields
  rw [hout]
  have hproceeds : ∀ r, (s.work r).Proceeds (w r) ∨ (s.registry.recordCount ≤ r ∧
      (t.records r).resultFuture ≠ some .result) := by
    intro r
    rcases Registry.obtain_cases s.registry none with ⟨hcreated, hr, hmade⟩ | ⟨hcreated, -, -⟩
    · by_cases hrnew : r = (s.registry.obtain none).1
      · right
        rw [hrnew]
        refine ⟨by omega, fun hresult => ?_⟩
        have hrecords : (s.registry.joinSync m sameLoop).records = t.records := by
          rcases hcases with h | ⟨kind, h, -⟩
          · rw [h]
          · rw [h]
            rfl
        refine hevolves.fresh (s.registry.obtain none).1 (by omega) ?_ (.inl ?_)
        · rw [Registry.joinSync_recordCount]
          exact hlt
        · rw [hrecords, hresult]
          rfl
      · left
        rw [hother r hrnew]
        exact Work.Proceeds.refl _
    · left
      rw [hold hcreated]
      exact Work.Proceeds.refl _
  have hhonest : (⟨t, w, s.requestScratch⟩ : Evaluations Member Checksum).Honest :=
    honest_of_progress hs hprogress (fun _ h => h.elim) hproceeds rfl
  rcases hcases with h | ⟨kind, h, howns⟩
  · rw [h]
    exact hhonest
  · -- the call of a synchronous caller has no setting
    have hnone : s.requestScratch s.registry.callCount ≠ some false := by
      intro hsome
      have hlt' := (hs.requests _ hsome).1
      omega
    rw [h]
    refine honest_addCall hhonest (s.requestScratch s.registry.callCount) rfl rfl ?_ ?_
      rfl rfl ?_ ?_
    · show s.requestScratch = Function.update s.requestScratch t.callCount _
      rw [hprogress.callCount, Function.update_eq_self]
    · show (s.registry.obtain none).1 < t.recordCount
      rw [hcount]
      exact hlt
    · intro hkind
      exact hnew (howns hkind)
    · intro hsome
      exact absurd hsome hnone

omit [DecidableEq Checksum] in
theorem shared_honest {s : Evaluations Member Checksum} (hs : s.Honest)
    (e : Registry.Event Member) (he : ¬ Registry.IsJoin e)
    (hX : ∀ r, s.registry.Succeeds e r → (s.work r).remote = true →
      (s.work r).sent.isSome = true) : (s.shared e).Honest :=
  honest_of_progress hs (Registry.stepEvent_progress s.registry he) hX
    (fun r => .inl (Work.Proceeds.refl (s.work r))) rfl

omit [DecidableEq Member] [DecidableEq Checksum] in
/-- A mark on a record that leaves its request alone. -/
theorem setWork_honest {s : Evaluations Member Checksum} (hs : s.Honest) (r : Nat)
    (f : Work Checksum → Work Checksum) (hf : (s.work r).Proceeds (f (s.work r))) :
    (s.setWork r f).Honest := by
  refine honest_of_progress hs (X := fun _ => False) (.refl _ _) (fun _ h => h.elim) ?_ rfl
  intro r'
  left
  rw [setWork_work]
  by_cases h : r' = r
  · rw [if_pos h, h]
    exact hf
  · rw [if_neg h]
    exact Work.Proceeds.refl _

omit [DecidableEq Checksum] in
theorem stepShared_honest {s : Evaluations Member Checksum} (hs : s.Honest)
    (e : Registry.Event Member) : (s.stepShared e).1.Honest := by
  have hmark : ∀ {t : Evaluations Member Checksum} (_ : t.Honest) (r : Nat),
      (t.endWork r).Honest := fun ht r =>
    setWork_honest ht r (fun w => { w with ended := true }) ⟨rfl, id, id⟩
  have hrelease : ∀ {t : Evaluations Member Checksum} (_ : t.Honest) (r : Nat),
      (t.releaseRefholds r).1.Honest := fun ht r =>
    setWork_honest ht r (fun w => { w with inputClaims := [] }) ⟨rfl, id, id⟩
  unfold stepShared
  cases e with
  | joinAsync m => exact hs
  | joinSync m sameLoop => exact hs
  | settleOwner c failed =>
    simp only
    split
    next h =>
      refine hmark (shared_honest hs (.settleOwner c failed) (fun h => h) ?_) _
      rintro r ⟨-, hr⟩ hremote
      -- the record of an owner is not remote
      rw [hr, hs.owners c h.1.1 h.2] at hremote
      cases hremote
    next => exact hs
  | finishOwner c =>
    simp only
    split
    · exact hrelease (shared_honest hs (.finishOwner c) (fun h => h) fun _ h => False.elim h) _
    · exact hs
  | settleTask r failed =>
    simp only
    split
    next h =>
      refine hmark (shared_honest hs (.settleTask r failed) (fun h => h) ?_) _
      rintro r' ⟨hfailed, hr⟩ hremote
      rw [hr] at hremote ⊢
      exact h.2 hremote hfailed
    next => exact hs
  | cancelTask r =>
    simp only
    split
    · exact hmark (shared_honest hs (.cancelTask r) (fun h => h) fun _ h => False.elim h) _
    · exact hs
  | dropTask r =>
    simp only
    split
    · exact hmark (shared_honest hs (.dropTask r) (fun h => h) fun _ h => False.elim h) _
    · exact hs
  | finishTask r =>
    simp only
    split
    · exact hs
    · exact shared_honest hs (.finishTask r) (fun h => h) fun _ h => False.elim h
  | discard r =>
    simp only
    split
    · exact hrelease (shared_honest hs (.discard r) (fun h => h) fun _ h => False.elim h) _
    · exact hs
  | _ =>
    refine shared_honest hs _ ?_ ?_
    · intro h
      exact h
    · intro r h
      exact False.elim h

/-- The step lemma of the requests, one case per activity. -/
theorem step_honest {s : Evaluations Member Checksum} (hs : s.Honest) (hc : s.Consistent)
    {a : Activity Member Checksum} (ha : ¬ s.JoinsLate a) : (s.step a).1.Honest := by
  cases a with
  | joinLocal m checksums =>
    exact joinTask_honest hs hc m false checksums none fun h => by cases h
  | joinRemote m checksums scratch =>
    refine joinTask_honest hs hc m true checksums (some scratch) ?_
    intro hscratch hfound hremote hsent
    rw [Option.some.inj hscratch] at ha
    exact ha ⟨hfound, hremote, hsent⟩
  | joinSync m sameLoop input => exact joinSync_honest hs hc m sameLoop input
  | startRemote r =>
    unfold step
    simp only
    split
    · exact setWork_honest hs r (fun w => { w with dispatchedScratch := some w.scratch })
        ⟨rfl, id, id⟩
    · exact hs
  | dispatch r =>
    unfold step
    simp only
    split
    next h =>
      refine setWork_honest hs r (fun w =>
        { w with dispatchedScratch := some w.scratch, sent := some w.scratch })
        ⟨rfl, fun _ => rfl, ?_⟩
      -- the request carries the setting that was agreed on
      rintro (⟨-, hscratch⟩ | hsent)
      · exact .inr (congrArg some hscratch)
      · rw [h.2.2.2] at hsent
        cases hsent
    next => exact hs
  | finishRemote r =>
    unfold step
    simp only
    split
    · have hfinish : (s.shared (.finishTask r)).Honest :=
        shared_honest hs (.finishTask r) (fun h => h) fun _ h => False.elim h
      have hdiscard : ((s.shared (.finishTask r)).shared (.discard r)).Honest :=
        shared_honest hfinish (.discard r) (fun h => h) fun _ h => False.elim h
      exact setWork_honest hdiscard r (fun w => { w with inputClaims := [] }) ⟨rfl, id, id⟩
    · exact hs
  | cancelWork r =>
    have hcancel : Progress (fun _ => False) s.registry
        (s.registry.updateRecord r Registry.requestCancel) := by
      refine Registry.updateRecord_progress_of_eq _ r _ fun a => ?_
      unfold Registry.requestCancel
      split <;> rfl
    exact honest_of_progress hs hcancel (fun _ h => h.elim)
      (fun r => .inl (Work.Proceeds.refl (s.work r))) rfl
  | event e => exact stepShared_honest hs e

omit [DecidableEq Member] [DecidableEq Checksum] in
theorem initial_honest (m : Member) : (initial m : Evaluations Member Checksum).Honest := by
  refine ⟨?_, ?_, (fun _ h => by cases h), (fun _ h => by cases h)⟩
  · intro c hc
    exact absurd hc (Nat.not_lt_zero c)
  · intro c hc
    exact absurd hc (Nat.not_lt_zero c)

/-! ## §5. Runs. -/

variable {Key : Type} [DecidableEq Key]

theorem after_honest (m : Member) (activities : List (Key × Activity Member Checksum))
    (hok : Run.StepsMeet (Run.keyed step) (fun _ s a => ¬ (s a.1).JoinsLate a.2)
      (fun _ => initial m) activities) (k : Key) : (after m activities k).Honest := by
  have h := Run.exec_traced_invariant (Run.keyed step) (fun _ s a => ¬ (s a.1).JoinsLate a.2)
    (fun _ s => ∀ k, (s k).Honest ∧ (s k).Consistent)
    (fun _ => ⟨initial_honest m, initial_consistent m⟩) ?_ activities hok
  · exact (h k).1
  · intro tr s a hs ha k'
    show (Function.update s a.1 (step (s a.1) a.2).1 k').Honest ∧ _
    by_cases hk : k' = a.1
    · rw [hk]
      show (Function.update s a.1 (step (s a.1) a.2).1 a.1).Honest ∧
        (Function.update s a.1 (step (s a.1) a.2).1 a.1).Consistent
      rw [Function.update_self]
      exact ⟨step_honest (hs a.1).1 (hs a.1).2 ha, step_consistent (hs a.1).2 a.2⟩
    · show _ ∧ (Function.update s a.1 (step (s a.1) a.2).1 k').Consistent
      rw [Function.update_of_ne hk]
      exact hs k'

/-- The call asked for a written result, and got one from a remote record, though no
request for the key was a non-scratch one. -/
def Unwritten (s : Evaluations Member Checksum) (c : Nat) : Prop :=
  s.requestScratch c = some false ∧ (s.registry.calls c).ended = some .result ∧
    (s.work (s.registry.calls c).record).remote = true ∧
    ∀ r, r < s.registry.recordCount → (s.work r).sent ≠ some false

/-- Over every run in which no call with `scratch=False` joins a remote record after
its scratch request was sent, such a call is answered only where a non-scratch
request was sent for the key. -/
theorem scratchHonoured (m : Member) (activities : List (Key × Activity Member Checksum))
    (hok : Run.StepsMeet (Run.keyed step) (fun _ s a => ¬ (s a.1).JoinsLate a.2)
      (fun _ => initial m) activities) (k : Key) (c : Nat) :
    ¬ (after m activities k).Unwritten c := by
  have hs := after_honest m activities hok k
  rintro ⟨hscratch, hended, hremote, hsent⟩
  obtain ⟨hc, hkind, hwrites⟩ := hs.requests c hscratch
  have hresult : ((after m activities k).registry.recordOf c).resultFuture = some .result := by
    rcases (hs.told c hc).2.2 hkind .result hended with h | h
    · cases h
    · exact h
  have hanswered := hs.answered _ hremote hresult
  rcases hwrites hremote with ⟨hnone, -⟩ | hsome
  · rw [hnone] at hanswered
    cases hanswered
  · exact hsent _ (hs.told c hc).1 hsome

/-- A call with `scratch=False` that joins before the request is sent: the request is
non-scratch. -/
theorem scratchHonoured_inTime :
    ¬ (after 0 ([((), .joinRemote 1 [7] true), ((), .joinRemote 2 [7] false),
      ((), .dispatch 0), ((), .event (.settleTask 0 false)), ((), .event (.deliverResult 1)),
      ((), .event (.resume 1))] : List (Unit × Activity Nat Nat)) ()).Unwritten 1 := by
  refine scratchHonoured 0 _ ?_ () 1
  refine ((((((Run.StepsMeet.nil _ _ _).snoc _ ?_).snoc _ ?_).snoc _ id).snoc _ id).snoc _
    id).snoc _ id
  · exact id
  · rintro ⟨-, -, hsent⟩
    revert hsent
    decide

/-- A call with `scratch=False` that joins after the scratch request was sent is
answered, and nothing is written. -/
theorem lateJoin_unwritten :
    (after 0 ([((), .joinRemote 1 [7] true), ((), .dispatch 0), ((), .joinRemote 2 [7] false),
      ((), .event (.settleTask 0 false)), ((), .event (.deliverResult 1)),
      ((), .event (.resume 1))] : List (Unit × Activity Nat Nat)) ()).Unwritten 1 := by
  exact ⟨by decide, by decide, by decide, by decide⟩

end Evaluations

end SeamlessCore.Expression
