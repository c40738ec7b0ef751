/-
  SeamlessCore.Expression.Waiters — independence of the waiting calls.

  A call that nobody cancelled or softcancelled is owed the verdict of the
  work.  The invariant follows every such call: as long as the work runs, its
  record is the active one, its member is in the member set and its waiter is
  filed under that member; afterwards the verdict is on its way to it.  All
  of this rests on one condition: no call joins under the member id of a call
  that has not returned.  With a shared id, the exit of one call takes the
  membership and the waiter of the other.

  Main results:
    * `softcancel_healthy` — a leaving member harms nobody else;
    * `step_healthy` — the invariant, event by event;
    * `waiterIndependence` — over all runs in which member ids are not shared;
    * `sharedMember_cancelled` — with a shared id the other call is cancelled.
-/
import SeamlessCore.Expression.Shared

namespace SeamlessCore.Expression.Registry

variable {Member : Type}

/-! ## §1. The invariant. -/

/-- The call waits, and nobody cancelled or softcancelled it. -/
def Waits (s : Registry Member) (c : Nat) : Prop :=
  Unfinished s c ∧ (s.calls c).targeted = false ∧ (s.calls c).kind ≠ .owns

/-- The record of a call. -/
def recordOf (s : Registry Member) (c : Nat) : ActiveExpression Member :=
  s.records (s.calls c).record

/-- What the registry owes to a waiting call. -/
structure Served (s : Registry Member) (c : Nat) : Prop where
  notQueued : (s.calls c).cancelQueued = false
  notCancelled : (s.recordOf c).task ≠ some .cancelRequested
  verdict : (s.recordOf c).resultFuture ≠ some .cancelled
  active : (s.recordOf c).resultFuture = none → s.active = some (s.calls c).record
  member : (s.calls c).member ∈ (s.recordOf c).members
  subscribed : (s.calls c).kind = .awaits → c ∈ (s.recordOf c).callbacks
  delivered : ∀ v, (s.calls c).waiter = some v → (s.recordOf c).resultFuture = some v

/-- The invariant of the machine.  `unowned` is a new record whose owner has
not been added yet. -/
structure Healthy (s : Registry Member) (unowned : Option Nat) : Prop where
  served : ∀ c, Waits s c → Served s c
  /-- Whoever ended untargeted got the verdict of the work. -/
  ended : ∀ c v, c < s.callCount → (s.calls c).ended = some v → (s.calls c).targeted = false →
    (s.calls c).kind ≠ .owns → v ≠ .cancelled ∧ (s.recordOf c).resultFuture = some v
  /-- Unfinished calls have different members. -/
  unique : ∀ c d, Unfinished s c → Unfinished s d → (s.calls c).member = (s.calls d).member → c = d
  /-- A waiter is filed under the member of its call. -/
  filed : ∀ r m c, (s.records r).waiters m = some c → c < s.callCount ∧ (s.calls c).member = m
  callRecord : ∀ c, c < s.callCount → (s.calls c).record < s.recordCount
  activeRecord : ∀ r, s.active = some r → r < s.recordCount
  lingeringRecord : ∀ r, s.lingering = some r → r < s.recordCount
  distinct : ∀ r, s.active = some r → s.lingering ≠ some r
  /-- Nobody can join work that is cancelled. -/
  live : ∀ r, (s.records r).task = some .cancelRequested ∨
    ((s.records r).task = some .done ∧ (s.records r).resultFuture = none) →
    s.active ≠ some r ∧ s.lingering ≠ some r
  ownerTask : ∀ c, c < s.callCount → (s.calls c).kind = .owns → (s.recordOf c).task = none
  /-- Pending work without a task has an owner at work. -/
  worked : ∀ r, r < s.recordCount → some r ≠ unowned → (s.records r).task = none →
    (s.records r).resultFuture = none →
    ∃ c, Unfinished s c ∧ (s.calls c).kind = .owns ∧ (s.calls c).record = r

theorem initial_healthy (m : Member) : Healthy (initial m) none := by
  refine ⟨?_, ?_, ?_, ?_, ?_, ?_, ?_, ?_, ?_, ?_, ?_⟩ <;> intros <;>
    simp_all [initial, Waits, Unfinished, newRecord]

theorem updateRecord_records (s : Registry Member) (r r' : Nat)
    (f : ActiveExpression Member → ActiveExpression Member) :
    (s.updateRecord r f).records r' = if r' = r then f (s.records r) else s.records r' := by
  unfold updateRecord
  by_cases h : r' = r
  · rw [if_pos h, h]
    exact Function.update_self _ _ _
  · rw [if_neg h]
    exact Function.update_of_ne h _ _

theorem updateCall_calls (s : Registry Member) (c d : Nat) (f : Call Member → Call Member) :
    (s.updateCall c f).calls d = if d = c then f (s.calls c) else s.calls d := by
  unfold updateCall
  by_cases h : d = c
  · rw [if_pos h, h]
    exact Function.update_self _ _ _
  · rw [if_neg h]
    exact Function.update_of_ne h _ _

theorem addCall_calls (s : Registry Member) (call : Call Member) (d : Nat) :
    (s.addCall call).calls d = if d = s.callCount then call else s.calls d := by
  unfold addCall
  by_cases h : d = s.callCount
  · rw [if_pos h, h]
    exact Function.update_self _ _ _
  · rw [if_neg h]
    exact Function.update_of_ne h _ _

/-! ## §2. Updates of one record. -/

/-- What may become of the record `r`. -/
structure Admits (s : Registry Member) (r : Nat) (a : ActiveExpression Member) : Prop where
  members : ∀ c, Waits s c → (s.calls c).record = r → (s.calls c).member ∈ a.members
  callbacks : ∀ c ∈ (s.records r).callbacks, c ∈ a.callbacks
  waiters : ∀ m c, a.waiters m = some c → (s.records r).waiters m = some c
  settled : ∀ v, (s.records r).resultFuture = some v → a.resultFuture = some v
  verdict : ∀ c, Waits s c → (s.calls c).record = r → a.resultFuture ≠ some .cancelled
  notCancelled : ∀ c, Waits s c → (s.calls c).record = r → a.task ≠ some .cancelRequested
  live : a.task = some .cancelRequested ∨ (a.task = some .done ∧ a.resultFuture = none) →
    s.active ≠ some r ∧ s.lingering ≠ some r
  owner : a.task = none ↔ (s.records r).task = none

/-- The record may stay as it is. -/
theorem Healthy.admits_self {s : Registry Member} {x : Option Nat} (hs : Healthy s x) (r : Nat) :
    Admits s r (s.records r) where
  members c hc hcr := hcr ▸ (hs.served c hc).member
  callbacks _ hc := hc
  waiters _ _ hw := hw
  settled _ hv := hv
  verdict c hc hcr := hcr ▸ (hs.served c hc).verdict
  notCancelled c hc hcr := hcr ▸ (hs.served c hc).notCancelled
  live := hs.live r
  owner := Iff.rfl

theorem updateRecord_healthy {s : Registry Member} {x : Option Nat} (hs : Healthy s x) {r : Nat}
    {f : ActiveExpression Member → ActiveExpression Member} (hf : Admits s r (f (s.records r))) :
    Healthy (s.updateRecord r f) x := by
  -- a record other than `r` reads as before
  have hself : (s.updateRecord r f).records r = f (s.records r) := by
    rw [updateRecord_records, if_pos rfl]
  have hother : ∀ r', r' ≠ r → (s.updateRecord r f).records r' = s.records r' := by
    intro r' hr'
    rw [updateRecord_records, if_neg hr']
  have hsettled : ∀ r' v, (s.records r').resultFuture = some v →
      ((s.updateRecord r f).records r').resultFuture = some v := by
    intro r' v hv
    by_cases h : r' = r
    · rw [h, hself]
      rw [h] at hv
      exact hf.settled v hv
    · rw [hother r' h]
      exact hv
  have hpending : ∀ r', ((s.updateRecord r f).records r').resultFuture = none →
      (s.records r').resultFuture = none := by
    intro r' hnone
    cases hv : (s.records r').resultFuture with
    | none => rfl
    | some v =>
      rw [hsettled r' v hv] at hnone
      cases hnone
  have hnone : ∀ r', ((s.updateRecord r f).records r').task = none ↔ (s.records r').task = none := by
    intro r'
    by_cases h : r' = r
    · rw [h, hself]
      exact hf.owner
    · rw [hother r' h]
  refine ⟨?_, ?_, hs.unique, ?_, hs.callRecord, hs.activeRecord, hs.lingeringRecord, hs.distinct,
    ?_, ?_, ?_⟩
  · intro c hc
    have h := hs.served c hc
    by_cases hcr : (s.calls c).record = r
    · have hrec : (s.updateRecord r f).recordOf c = f (s.records r) := by
        show (s.updateRecord r f).records (s.calls c).record = _
        rw [hcr, hself]
      have hold : s.recordOf c = s.records r := by
        show s.records (s.calls c).record = _
        rw [hcr]
      refine ⟨h.notQueued, ?_, ?_, ?_, ?_, ?_, ?_⟩
      · rw [hrec]
        exact hf.notCancelled c hc hcr
      · rw [hrec]
        exact hf.verdict c hc hcr
      · intro hfuture
        exact h.active (hpending _ hfuture)
      · rw [hrec]
        exact hf.members c hc hcr
      · intro hkind
        rw [hrec]
        have hsub := h.subscribed hkind
        rw [hold] at hsub
        exact hf.callbacks c hsub
      · intro v hv
        exact hsettled _ v (h.delivered v hv)
    · have hrec : (s.updateRecord r f).recordOf c = s.recordOf c := hother _ hcr
      refine ⟨h.notQueued, ?_, ?_, ?_, ?_, ?_, ?_⟩ <;> rw [hrec]
      · exact h.notCancelled
      · exact h.verdict
      · exact h.active
      · exact h.member
      · exact h.subscribed
      · exact h.delivered
  · intro c v hc hv htar hkind
    have h := hs.ended c v hc hv htar hkind
    exact ⟨h.1, hsettled _ v h.2⟩
  · intro r' m c hw
    by_cases h : r' = r
    · rw [h, hself] at hw
      exact hs.filed r m c (hf.waiters m c hw)
    · rw [hother r' h] at hw
      exact hs.filed r' m c hw
  · intro r' hr'
    by_cases h : r' = r
    · rw [h, hself] at hr'
      rw [h]
      exact hf.live hr'
    · rw [hother r' h] at hr'
      exact hs.live r' hr'
  · intro c hc hkind
    exact (hnone _).mpr (hs.ownerTask c hc hkind)
  · intro r' hr' hx htask hfuture
    exact hs.worked r' hr' hx ((hnone r').mp htask) (hpending r' hfuture)

/-- Timers, the linger handle and queued callbacks are not part of the invariant. -/
theorem timers_healthy {s : Registry Member} {x : Option Nat} (hs : Healthy s x) (r : Nat)
    {f : ActiveExpression Member → ActiveExpression Member}
    (hf : ∀ a, (f a).members = a.members ∧ (f a).waiters = a.waiters ∧ (f a).task = a.task ∧
      (f a).resultFuture = a.resultFuture ∧ (f a).callbacks = a.callbacks) :
    Healthy (s.updateRecord r f) x := by
  obtain ⟨hm, hw, ht, hv, hc⟩ := hf (s.records r)
  have h := hs.admits_self r
  refine updateRecord_healthy hs ⟨?_, ?_, ?_, ?_, ?_, ?_, ?_, ?_⟩
  · rw [hm]
    exact h.members
  · rw [hc]
    exact h.callbacks
  · rw [hw]
    exact h.waiters
  · rw [hv]
    exact h.settled
  · rw [hv]
    exact h.verdict
  · rw [ht]
    exact h.notCancelled
  · rw [ht, hv]
    exact h.live
  · rw [ht]

theorem cancelLinger_keeps (a : ActiveExpression Member) :
    (cancelLinger a).members = a.members ∧ (cancelLinger a).waiters = a.waiters ∧
      (cancelLinger a).task = a.task ∧ (cancelLinger a).resultFuture = a.resultFuture ∧
      (cancelLinger a).callbacks = a.callbacks := by
  unfold cancelLinger
  cases a.linger <;> exact ⟨rfl, rfl, rfl, rfl, rfl⟩

/-- The future is set, with a `CancelledError` only where nobody waits. -/
theorem settle_healthy {s : Registry Member} {x : Option Nat} (hs : Healthy s x) (r : Nat)
    {v : Verdict}
    (hv : v = .cancelled → (s.records r).resultFuture = none →
      ∀ c, Waits s c → (s.calls c).record ≠ r) :
    Healthy (s.updateRecord r fun a => settle a v) x := by
  have h := hs.admits_self r
  refine updateRecord_healthy hs ?_
  unfold settle
  by_cases hdone : (s.records r).resultFuture.isSome = true
  · rw [if_pos hdone]
    exact h
  · rw [if_neg hdone]
    have hnone : (s.records r).resultFuture = none := by simpa using hdone
    refine ⟨h.members, h.callbacks, h.waiters, ?_, ?_, h.notCancelled, ?_, h.owner⟩
    · intro w hw
      rw [hnone] at hw
      cases hw
    · intro c hc hcr heq
      exact hv (Option.some.inj heq) hnone c hc hcr
    · rintro (htask | ⟨-, hfuture⟩)
      · exact h.live (.inl htask)
      · cases hfuture

/-- The task of a record moves on. -/
theorem setTask_healthy {s : Registry Member} {x : Option Nat} (hs : Healthy s x) {r : Nat}
    {t : TaskState} (hsome : (s.records r).task ≠ none)
    (hcancel : t = .cancelRequested → ∀ c, Waits s c → (s.calls c).record ≠ r)
    (hlive : t = .cancelRequested ∨ (t = .done ∧ (s.records r).resultFuture = none) →
      s.active ≠ some r ∧ s.lingering ≠ some r) :
    Healthy (s.updateRecord r fun a => { a with task := some t }) x := by
  have h := hs.admits_self r
  refine updateRecord_healthy hs
    ⟨h.members, h.callbacks, h.waiters, h.settled, h.verdict, ?_, ?_, ?_⟩
  · intro c hc hcr heq
    exact hcancel (Option.some.inj heq) c hc hcr
  · rintro (htask | ⟨htask, hfuture⟩)
    · exact hlive (.inl (Option.some.inj htask))
    · exact hlive (.inr ⟨Option.some.inj htask, hfuture⟩)
  · show some t = none ↔ (s.records r).task = none
    simp [hsome]

/-! ## §3. Updates of calls. -/

/-- Calls keep their identity; what they are told is true. -/
theorem setCalls_healthy {s : Registry Member} {x : Option Nat} (hs : Healthy s x)
    {g : Nat → Call Member}
    (hsame : ∀ c, (g c).member = (s.calls c).member ∧ (g c).record = (s.calls c).record ∧
      (g c).kind = (s.calls c).kind)
    (hended : ∀ c, (g c).ended = none → (s.calls c).ended = none)
    (hserved : ∀ c, Waits { s with calls := g } c → Waits s c ∧ (g c).cancelQueued = false ∧
      ∀ v, (g c).waiter = some v → (s.recordOf c).resultFuture = some v)
    (hend : ∀ c v, c < s.callCount → (g c).ended = some v → (g c).targeted = false →
      (s.calls c).kind ≠ .owns → v ≠ .cancelled ∧ (s.recordOf c).resultFuture = some v)
    (howner : ∀ c, (s.calls c).kind = .owns → (s.calls c).ended = none →
      (g c).ended = none ∨ (s.recordOf c).resultFuture ≠ none) :
    Healthy { s with calls := g } x := by
  -- every call stays with its record
  have hrec : ∀ c, recordOf { s with calls := g } c = s.recordOf c := by
    intro c
    show s.records (g c).record = s.records (s.calls c).record
    rw [(hsame c).2.1]
  have hunfinished : ∀ c, Unfinished { s with calls := g } c → Unfinished s c := by
    intro c hc
    exact ⟨hc.1, hended c hc.2⟩
  refine ⟨?_, ?_, ?_, ?_, ?_, hs.activeRecord, hs.lingeringRecord, hs.distinct, hs.live, ?_, ?_⟩
  · intro c hc
    obtain ⟨hwaits, hqueued, hdelivered⟩ := hserved c hc
    have h := hs.served c hwaits
    obtain ⟨hm, hr, hk⟩ := hsame c
    refine ⟨hqueued, ?_, ?_, ?_, ?_, ?_, ?_⟩ <;> rw [hrec]
    · exact h.notCancelled
    · exact h.verdict
    · show _ → s.active = some (g c).record
      rw [hr]
      exact h.active
    · show (g c).member ∈ _
      rw [hm]
      exact h.member
    · show (g c).kind = _ → _
      rw [hk]
      exact h.subscribed
    · exact hdelivered
  · intro c v hc hv htar hkind
    rw [hrec]
    refine hend c v hc hv htar ?_
    rw [← (hsame c).2.2]
    exact hkind
  · intro c d hc hd heq
    refine hs.unique c d (hunfinished c hc) (hunfinished d hd) ?_
    rw [← (hsame c).1, ← (hsame d).1]
    exact heq
  · intro r m c hw
    have h := hs.filed r m c hw
    refine ⟨h.1, ?_⟩
    show (g c).member = m
    rw [(hsame c).1]
    exact h.2
  · intro c hc
    show (g c).record < _
    rw [(hsame c).2.1]
    exact hs.callRecord c hc
  · intro c hc hkind
    rw [hrec]
    refine hs.ownerTask c hc ?_
    rw [← (hsame c).2.2]
    exact hkind
  · intro r hr hx htask hfuture
    obtain ⟨c, hc, hkind, hcr⟩ := hs.worked r hr hx htask hfuture
    -- an owner goes on until its record has a result
    have hstill : (g c).ended = none := by
      rcases howner c hkind hc.2 with h | h
      · exact h
      · exact absurd (show (s.records (s.calls c).record).resultFuture = none from hcr ▸ hfuture) h
    refine ⟨c, ⟨hc.1, hstill⟩, ?_, ?_⟩
    · show (g c).kind = _
      rw [(hsame c).2.2]
      exact hkind
    · show (g c).record = r
      rw [(hsame c).2.1]
      exact hcr

/-- One call that is not waiting afterwards, and ends with the verdict unless
it is targeted. -/
theorem updateCall_healthy {s : Registry Member} {x : Option Nat} (hs : Healthy s x) {c : Nat}
    {f : Call Member → Call Member}
    (hsame : (f (s.calls c)).member = (s.calls c).member ∧
      (f (s.calls c)).record = (s.calls c).record ∧ (f (s.calls c)).kind = (s.calls c).kind)
    (hended : (f (s.calls c)).ended = none → (s.calls c).ended = none)
    (hserved : Waits (s.updateCall c f) c → Waits s c ∧ (f (s.calls c)).cancelQueued = false ∧
      ∀ v, (f (s.calls c)).waiter = some v → (s.recordOf c).resultFuture = some v)
    (hend : ∀ v, c < s.callCount → (f (s.calls c)).ended = some v →
      (f (s.calls c)).targeted = false → (s.calls c).kind ≠ .owns →
      v ≠ .cancelled ∧ (s.recordOf c).resultFuture = some v)
    (howner : (s.calls c).kind = .owns → (s.calls c).ended = none →
      (f (s.calls c)).ended = none ∨ (s.recordOf c).resultFuture ≠ none) :
    Healthy (s.updateCall c f) x := by
  have hself : (s.updateCall c f).calls c = f (s.calls c) := by
    rw [updateCall_calls, if_pos rfl]
  have hother : ∀ d, d ≠ c → (s.updateCall c f).calls d = s.calls d := by
    intro d hd
    rw [updateCall_calls, if_neg hd]
  refine setCalls_healthy hs (g := (s.updateCall c f).calls) ?_ ?_ ?_ ?_ ?_ <;> intro d <;>
    by_cases hd : d = c
  · rw [hd, hself]
    exact hsame
  · rw [hother d hd]
    exact ⟨rfl, rfl, rfl⟩
  · rw [hd, hself]
    exact hended
  · rw [hother d hd]
    exact id
  · rw [hd, hself]
    exact hserved
  · intro hw
    have hwaits : Waits s d := by
      unfold Waits Unfinished at hw ⊢
      rw [show ({ s with calls := (s.updateCall c f).calls } : Registry Member).calls d = s.calls d
        from hother d hd] at hw
      exact hw
    rw [hother d hd]
    have h := hs.served d hwaits
    exact ⟨hwaits, h.notQueued, h.delivered⟩
  · rw [hd, hself]
    exact hend
  · rw [hother d hd]
    exact hs.ended d
  · rw [hd, hself]
    exact howner
  · rw [hother d hd]
    intro _ h
    exact .inl h

/-! ## §4. Leaving. -/

/-- A record without waiting calls that wait for its result may linger. -/
theorem linger_healthy {s : Registry Member} {x : Option Nat} (hs : Healthy s x) {r : Nat}
    (hactive : s.active = some r)
    (hnobody : ∀ c, Waits s c → (s.recordOf c).resultFuture ≠ none) :
    Healthy { s with active := none, lingering := some r } x := by
  refine ⟨?_, hs.ended, hs.unique, hs.filed, hs.callRecord, ?_, ?_, ?_, ?_, hs.ownerTask, hs.worked⟩
  · intro c hc
    have h := hs.served c hc
    exact ⟨h.notQueued, h.notCancelled, h.verdict, fun hnone => absurd hnone (hnobody c hc),
      h.member, h.subscribed, h.delivered⟩
  · intro r' hr'
    cases hr'
  · intro r' hr'
    have hrr : r = r' := by simpa using hr'
    rw [← hrr]
    exact hs.activeRecord r hactive
  · intro r' hr'
    cases hr'
  · intro r' hr'
    have h := hs.live r' hr'
    refine ⟨by simp, ?_⟩
    show some r ≠ some r'
    rw [← hactive]
    exact h.1

/-- The record leaves `_active_expressions`. -/
theorem popActive_healthy {s : Registry Member} {x : Option Nat} (hs : Healthy s x) {r : Nat}
    (hdone : s.active = some r → (s.records r).resultFuture ≠ none) :
    Healthy (s.popActive r) x := by
  unfold popActive
  by_cases hactive : s.active = some r
  · rw [if_pos hactive]
    refine ⟨?_, hs.ended, hs.unique, hs.filed, hs.callRecord, ?_, hs.lingeringRecord, ?_, ?_,
      hs.ownerTask, hs.worked⟩
    · intro c hc
      have h := hs.served c hc
      refine ⟨h.notQueued, h.notCancelled, h.verdict, ?_, h.member, h.subscribed, h.delivered⟩
      -- whoever waits for a result waits on the active record, which is done
      intro hnone
      have hcr := h.active hnone
      rw [hactive, Option.some.injEq] at hcr
      have hpending : (s.records r).resultFuture = none := by
        rw [hcr]
        exact hnone
      exact absurd hpending (hdone hactive)
    · intro r' hr'
      cases hr'
    · intro r' hr'
      cases hr'
    · intro r' hr'
      exact ⟨by simp, (hs.live r' hr').2⟩
  · rw [if_neg hactive]
    exact hs

/-- The record leaves `_lingering_expressions`. -/
theorem popLingering_healthy {s : Registry Member} {x : Option Nat} (hs : Healthy s x) (r : Nat) :
    Healthy (s.popLingering r) x := by
  unfold popLingering
  by_cases hlingering : s.lingering = some r
  · rw [if_pos hlingering]
    refine ⟨?_, hs.ended, hs.unique, hs.filed, hs.callRecord, hs.activeRecord, ?_, ?_, ?_,
      hs.ownerTask, hs.worked⟩
    · intro c hc
      have h := hs.served c hc
      exact ⟨h.notQueued, h.notCancelled, h.verdict, h.active, h.member, h.subscribed, h.delivered⟩
    · intro r' hr'
      cases hr'
    · intro r' _
      simp
    · intro r' hr'
      exact ⟨(hs.live r' hr').1, by simp⟩
  · rw [if_neg hlingering]
    exact hs

@[simp]
theorem popActive_records (s : Registry Member) (r : Nat) : (s.popActive r).records = s.records := by
  unfold popActive
  split <;> rfl

@[simp]
theorem popActive_calls (s : Registry Member) (r : Nat) : (s.popActive r).calls = s.calls := by
  unfold popActive
  split <;> rfl

@[simp]
theorem popLingering_records (s : Registry Member) (r : Nat) :
    (s.popLingering r).records = s.records := by
  unfold popLingering
  split <;> rfl

@[simp]
theorem popLingering_calls (s : Registry Member) (r : Nat) :
    (s.popLingering r).calls = s.calls := by
  unfold popLingering
  split <;> rfl

/-- A queued cancel harms only the member it is meant for. -/
theorem queueCancel_healthy {s : Registry Member} {x : Option Nat} (hs : Healthy s x)
    (waiter : Option Nat) (hw : ∀ c, waiter = some c → ¬ Waits s c) :
    Healthy (s.queueCancel waiter) x := by
  cases waiter with
  | none => exact hs
  | some c =>
    have hnot := hw c rfl
    refine updateCall_healthy (f := fun call => { call with cancelQueued := true }) hs
      ⟨rfl, rfl, rfl⟩ id ?_ (hs.ended c) (fun _ hnone => .inl hnone)
    intro hwaits
    -- the queue does not decide who waits
    refine absurd ?_ hnot
    unfold Waits Unfinished at hwaits ⊢
    rw [updateCall_calls, if_pos rfl] at hwaits
    exact hwaits

section

variable [DecidableEq Member]

@[simp]
theorem removeMember_active (s : Registry Member) (r : Nat) (m : Member) :
    (s.removeMember r m).active = s.active := by
  unfold removeMember queueCancel
  cases (s.records r).waiters m <;> rfl

theorem removeMember_healthy {s : Registry Member} {x : Option Nat} (hs : Healthy s x) {r : Nat}
    {m : Member} (hfree : ∀ c, Waits s c → (s.calls c).member ≠ m) :
    Healthy (s.removeMember r m) x := by
  have hadmits := hs.admits_self r
  have hleft : Healthy (s.updateRecord r fun a =>
      { a with members := a.members.erase m, waiters := Function.update a.waiters m none }) x := by
    refine updateRecord_healthy hs ⟨?_, hadmits.callbacks, ?_, hadmits.settled, hadmits.verdict,
      hadmits.notCancelled, hadmits.live, hadmits.owner⟩
    · intro c hc hcr
      exact Finset.mem_erase.mpr ⟨hfree c hc, hadmits.members c hc hcr⟩
    · intro m' c hw
      by_cases hm : m' = m
      · simp [hm] at hw
      · simpa [hm] using hw
  -- the waiter whose cancel is queued is one of `m`
  refine queueCancel_healthy hleft ((s.records r).waiters m) ?_
  intro c hw hc
  exact hfree c hc (hs.filed r m c hw).2

/-- If no waiting call has the member `m`, its softcancel harms nobody. -/
theorem softcancel_healthy {s : Registry Member} {x : Option Nat} (hs : Healthy s x) {m : Member}
    (hfree : ∀ c, Waits s c → (s.calls c).member ≠ m) : Healthy (s.softcancel m).1 x := by
  unfold softcancel
  cases hactive : s.active with
  | none => exact hs
  | some r =>
    simp only
    by_cases hno : m ∉ (s.records r).members ∨ (s.records r).resultFuture.isSome = true
    · rw [if_pos hno]
      exact hs
    rw [if_neg hno]
    have hleft := removeMember_healthy hs (r := r) hfree
    by_cases hempty : ((s.removeMember r m).records r).members = ∅
    · rw [if_pos hempty]
      by_cases hsync : (s.records r).task.isNone = true
      · rw [if_pos hsync]
        exact hleft
      · rw [if_neg hsync]
        have hactive' : (s.removeMember r m).active = some r := by
          rw [removeMember_active]
          exact hactive
        refine timers_healthy (f := fun a => { a with schedules := a.schedules + 1 })
          (linger_healthy hleft hactive' ?_) r fun a => ⟨rfl, rfl, rfl, rfl, rfl⟩
        -- a call that waits for the result would be a member of `r`
        intro c hc hnone
        have h := hleft.served c hc
        have hcr := h.active hnone
        rw [hactive', Option.some.injEq] at hcr
        have hmem := h.member
        unfold recordOf at hmem
        rw [← hcr, hempty] at hmem
        exact absurd hmem (Finset.notMem_empty _)
    · rw [if_neg hempty]
      exact hleft

/-- The exit of an unfinished call, with the verdict unless it is targeted. -/
theorem endCall_healthy {s : Registry Member} (hs : Healthy s none) {c : Nat} {v : Verdict}
    (hc : Unfinished s c) (hkind : (s.calls c).kind ≠ .owns)
    (hv : (s.calls c).targeted = false →
      v ≠ .cancelled ∧ (s.recordOf c).resultFuture = some v) :
    Healthy (s.endCall c v) none := by
  unfold endCall
  set t := s.updateCall c fun call => { call with ended := some v } with ht
  have hself : t.calls c = { s.calls c with ended := some v } := by
    rw [ht, updateCall_calls, if_pos rfl]
  have hended : Healthy t none := by
    refine updateCall_healthy hs ⟨rfl, rfl, rfl⟩ (fun h => by cases h) ?_ ?_ ?_
    · intro hw
      have hnone := hw.1.2
      rw [← ht, hself] at hnone
      cases hnone
    · intro w _ hw htar _
      have hvw : v = w := Option.some.inj hw
      rw [← hvw]
      exact hv htar
    · intro h
      exact absurd h hkind
  refine softcancel_healthy hended ?_
  -- the other unfinished calls have other members
  intro d hd hmember
  by_cases hdc : d = c
  · have hnone := hd.1.2
    rw [hdc, hself] at hnone
    cases hnone
  · have hsame : t.calls d = s.calls d := by
      rw [ht, updateCall_calls, if_neg hdc]
    have hud : Unfinished s d := by
      have h := hd.1
      unfold Unfinished at h ⊢
      rw [hsame] at h
      exact h
    rw [hsame] at hmember
    exact hdc (hs.unique d c hud hc hmember)

/-- A softcancel from outside means the calls of the member. -/
theorem target_softcancel_healthy {s : Registry Member} (hs : Healthy s none) (m : Member) :
    Healthy ((s.target m).softcancel m).1 none := by
  have hcalls : ∀ c, (s.target m).calls c = s.calls c ∨
      (s.target m).calls c = { s.calls c with targeted := true } := by
    intro c
    unfold target
    by_cases h : Unfinished s c ∧ (s.calls c).member = m
    · exact .inr (if_pos h)
    · exact .inl (if_neg h)
  have hhit : ∀ c, Unfinished s c → (s.calls c).member = m →
      ((s.target m).calls c).targeted = true := by
    intro c hc hm
    have h : (s.target m).calls c = { s.calls c with targeted := true } := if_pos ⟨hc, hm⟩
    rw [h]
  -- to be targeted changes nothing but the promise made to the call
  have htargeted : Healthy (s.target m) none := by
    refine setCalls_healthy hs (g := (s.target m).calls) ?_ ?_ ?_ ?_ ?_ <;> intro c <;>
      rcases hcalls c with h | h
    · rw [h]
      exact ⟨rfl, rfl, rfl⟩
    · rw [h]
      exact ⟨rfl, rfl, rfl⟩
    · rw [h]
      exact id
    · rw [h]
      exact id
    · intro hw
      have hwaits : Waits s c := by
        unfold Waits Unfinished at hw ⊢
        rw [show ({ s with calls := (s.target m).calls } : Registry Member).calls c = s.calls c
          from h] at hw
        exact hw
      rw [h]
      have hserved := hs.served c hwaits
      exact ⟨hwaits, hserved.notQueued, hserved.delivered⟩
    · intro hw
      have hfalse : ((s.target m).calls c).targeted = false := hw.2.1
      rw [h] at hfalse
      cases hfalse
    · rw [h]
      exact hs.ended c
    · rw [h]
      intro v _ _ hfalse
      cases hfalse
    · rw [h]
      intro _ hnone
      exact .inl hnone
    · rw [h]
      intro _ hnone
      exact .inl hnone
  refine softcancel_healthy htargeted ?_
  intro c hc hmember
  have hmember' : (s.calls c).member = m := by
    rcases hcalls c with h | h <;> rw [h] at hmember <;> exact hmember
  have hunf : Unfinished s c := by
    have hu := hc.1
    unfold Unfinished at hu ⊢
    rcases hcalls c with h | h <;> rw [h] at hu <;> exact hu
  have htrue := hhit c hunf hmember'
  rw [hc.2.1] at htrue
  cases htrue

/-! ## §5. Joining. -/

/-- A call joins the record `r`, or owns it, under a member id that no
unfinished call has. -/
theorem enter_healthy {s : Registry Member} {x : Option Nat} (hs : Healthy s x) {r : Nat}
    {m : Member} {kind : CallKind} {f : ActiveExpression Member → ActiveExpression Member}
    (hr : r < s.recordCount) (hfresh : ∀ c, Unfinished s c → (s.calls c).member ≠ m)
    (hmembers : (f (s.records r)).members = insert m (s.records r).members)
    (hcallbacks : ∀ c ∈ (s.records r).callbacks, c ∈ (f (s.records r)).callbacks)
    (hsubscribed : kind = .awaits → s.callCount ∈ (f (s.records r)).callbacks)
    (hwaiters : ∀ m' c, (f (s.records r)).waiters m' = some c →
      (s.records r).waiters m' = some c ∨ (m' = m ∧ c = s.callCount))
    (htask : (f (s.records r)).task = (s.records r).task)
    (hfuture : (f (s.records r)).resultFuture = (s.records r).resultFuture)
    (hwaits : kind ≠ .owns → s.active = some r ∧ (s.records r).resultFuture = none)
    (howns : kind = .owns → (s.records r).task = none)
    (hunowned : x = none ∨ (x = some r ∧ kind = .owns)) :
    Healthy ((s.updateRecord r f).addCall ⟨m, r, kind, none, false, false, none⟩) none := by
  set u := (s.updateRecord r f).addCall ⟨m, r, kind, none, false, false, none⟩ with hu
  have hnew : u.calls s.callCount = ⟨m, r, kind, none, false, false, none⟩ := by
    rw [hu, addCall_calls]
    exact if_pos rfl
  have hold : ∀ c, c < s.callCount → u.calls c = s.calls c := by
    intro c hc
    rw [hu, addCall_calls]
    exact if_neg (Nat.ne_of_lt hc)
  have hcount : u.callCount = s.callCount + 1 := rfl
  have hself : u.records r = f (s.records r) := by
    show (s.updateRecord r f).records r = _
    rw [updateRecord_records, if_pos rfl]
  have hother : ∀ r', r' ≠ r → u.records r' = s.records r' := by
    intro r' hr'
    show (s.updateRecord r f).records r' = _
    rw [updateRecord_records, if_neg hr']
  -- what the invariant reads of a record only grows
  have hgrows : ∀ r', (∀ m' ∈ (s.records r').members, m' ∈ (u.records r').members) ∧
      (∀ c ∈ (s.records r').callbacks, c ∈ (u.records r').callbacks) ∧
      (u.records r').task = (s.records r').task ∧
      (u.records r').resultFuture = (s.records r').resultFuture := by
    intro r'
    by_cases h : r' = r
    · rw [h, hself, hmembers]
      exact ⟨fun m' hm' => Finset.mem_insert_of_mem hm', hcallbacks, htask, hfuture⟩
    · rw [hother r' h]
      exact ⟨fun _ h => h, fun _ h => h, rfl, rfl⟩
  have hcases : ∀ c, c < u.callCount → c = s.callCount ∨ c < s.callCount := by
    intro c hc
    rw [hcount] at hc
    omega
  have holdUnfinished : ∀ c, c < s.callCount → Unfinished u c → Unfinished s c := by
    intro c hc h
    refine ⟨hc, ?_⟩
    rw [← hold c hc]
    exact h.2
  refine ⟨?_, ?_, ?_, ?_, ?_, hs.activeRecord, hs.lingeringRecord, hs.distinct, ?_, ?_, ?_⟩
  · intro c hc
    rcases hcases c hc.1.1 with hcn | hlt
    · -- the new call
      have hkind : kind ≠ .owns := by
        have h := hc.2.2
        rw [hcn, hnew] at h
        exact h
      obtain ⟨hactive, hpending⟩ := hwaits hkind
      have hrec : u.recordOf c = f (s.records r) := by
        unfold recordOf
        rw [hcn, hnew, hself]
      rw [hcn] at hrec ⊢
      refine ⟨?_, ?_, ?_, ?_, ?_, ?_, ?_⟩
      · rw [hnew]
      · rw [hrec, htask]
        intro hcancel
        exact (hs.live r (.inl hcancel)).1 hactive
      · rw [hrec, hfuture, hpending]
        simp
      · intro _
        rw [hnew]
        exact hactive
      · rw [hrec, hnew, hmembers]
        exact Finset.mem_insert_self _ _
      · rw [hrec, hnew]
        exact hsubscribed
      · rw [hnew]
        intro v hv
        cases hv
    · have hw : Waits s c := by
        have h := hc.2
        rw [hold c hlt] at h
        exact ⟨holdUnfinished c hlt hc.1, h⟩
      have h := hs.served c hw
      obtain ⟨hm, hcb, ht, hf⟩ := hgrows (s.calls c).record
      have hrec : u.recordOf c = u.records (s.calls c).record := by
        unfold recordOf
        rw [hold c hlt]
      refine ⟨?_, ?_, ?_, ?_, ?_, ?_, ?_⟩
      · rw [hold c hlt]
        exact h.notQueued
      · rw [hrec, ht]
        exact h.notCancelled
      · rw [hrec, hf]
        exact h.verdict
      · rw [hrec, hf, hold c hlt]
        exact h.active
      · rw [hrec, hold c hlt]
        exact hm _ h.member
      · rw [hrec, hold c hlt]
        intro hkind
        exact hcb c (h.subscribed hkind)
      · rw [hrec, hf, hold c hlt]
        exact h.delivered
  · intro c v hc hv htar hkind
    rcases hcases c hc with hcn | hlt
    · rw [hcn, hnew] at hv
      cases hv
    · unfold recordOf
      rw [hold c hlt] at hv htar hkind ⊢
      rw [(hgrows _).2.2.2]
      exact hs.ended c v hlt hv htar hkind
  · intro c d hc hd heq
    rcases hcases c hc.1 with hcn | hltc <;> rcases hcases d hd.1 with hdn | hltd
    · rw [hcn, hdn]
    · rw [hcn, hnew, hold d hltd] at heq
      exact absurd heq.symm (hfresh d (holdUnfinished d hltd hd))
    · rw [hdn, hnew, hold c hltc] at heq
      exact absurd heq (hfresh c (holdUnfinished c hltc hc))
    · rw [hold c hltc, hold d hltd] at heq
      exact hs.unique c d (holdUnfinished c hltc hc) (holdUnfinished d hltd hd) heq
  · intro r' m' c hw
    have hfiled : (s.records r').waiters m' = some c ∨ (m' = m ∧ c = s.callCount) := by
      by_cases h : r' = r
      · rw [h, hself] at hw
        rw [h]
        exact hwaiters m' c hw
      · rw [hother r' h] at hw
        exact .inl hw
    rcases hfiled with h | ⟨hm, hcn⟩
    · obtain ⟨hlt, hmember⟩ := hs.filed r' m' c h
      rw [hold c hlt, hcount]
      exact ⟨by omega, hmember⟩
    · rw [hcn, hnew, hcount]
      exact ⟨by omega, hm.symm⟩
  · intro c hc
    show (u.calls c).record < s.recordCount
    rcases hcases c hc with hcn | hlt
    · rw [hcn, hnew]
      exact hr
    · rw [hold c hlt]
      exact hs.callRecord c hlt
  · intro r' hr'
    obtain ⟨-, -, ht, hf⟩ := hgrows r'
    rw [ht, hf] at hr'
    exact hs.live r' hr'
  · intro c hc hkind
    unfold recordOf
    rw [(hgrows _).2.2.1]
    rcases hcases c hc with hcn | hlt
    · rw [hcn, hnew] at hkind ⊢
      exact howns hkind
    · rw [hold c hlt] at hkind ⊢
      exact hs.ownerTask c hlt hkind
  · intro r' hr' _ ht hf
    obtain ⟨-, -, ht', hf'⟩ := hgrows r'
    rw [ht'] at ht
    rw [hf'] at hf
    by_cases hx : some r' = x
    · -- the new record has its owner now
      rcases hunowned with hxn | ⟨hxr, hkind⟩
      · rw [hxn] at hx
        cases hx
      · have hrr : r' = r := by
          rw [hxr] at hx
          exact Option.some.inj hx
        refine ⟨s.callCount, ⟨by rw [hcount]; omega, ?_⟩, ?_, ?_⟩ <;> rw [hnew]
        · exact hkind
        · exact hrr.symm
    · obtain ⟨c, hc, hkind, hcr⟩ := hs.worked r' hr' hx ht hf
      have hlt := hc.1
      refine ⟨c, ⟨by rw [hcount]; omega, ?_⟩, ?_, ?_⟩ <;> rw [hold c hlt]
      · exact hc.2
      · exact hkind
      · exact hcr

omit [DecidableEq Member] in
/-- A new record, when nobody waits for a result. -/
theorem createRecord_healthy {s : Registry Member} (hs : Healthy s none) (task : Option TaskState)
    (htask : task = none ∨ task = some .running)
    (hnobody : ∀ c, Waits s c → (s.recordOf c).resultFuture ≠ none) :
    Healthy (s.createRecord task) (if task = none then some s.recordCount else none) := by
  have hnew : (s.createRecord task).records s.recordCount = newRecord task :=
    Function.update_self _ _ _
  have hold : ∀ r, r < s.recordCount → (s.createRecord task).records r = s.records r := by
    intro r hr
    exact Function.update_of_ne (Nat.ne_of_lt hr) _ _
  have hunused : ∀ r, r ≠ s.recordCount → (s.createRecord task).records r = s.records r := by
    intro r hr
    exact Function.update_of_ne hr _ _
  have hrec : ∀ c, c < s.callCount → (s.createRecord task).recordOf c = s.recordOf c := by
    intro c hc
    exact hold _ (hs.callRecord c hc)
  refine ⟨?_, ?_, hs.unique, ?_, ?_, ?_, ?_, ?_, ?_, ?_, ?_⟩
  · intro c hc
    have hw : Waits s c := hc
    have h := hs.served c hw
    refine ⟨h.notQueued, ?_, ?_, ?_, ?_, ?_, ?_⟩ <;> rw [hrec c hc.1.1]
    · exact h.notCancelled
    · exact h.verdict
    · intro hnone
      exact absurd hnone (hnobody c hw)
    · exact h.member
    · exact h.subscribed
    · exact h.delivered
  · intro c v hc hv htar hkind
    rw [hrec c hc]
    exact hs.ended c v hc hv htar hkind
  · intro r m c hw
    by_cases hr : r = s.recordCount
    · rw [hr, hnew] at hw
      cases hw
    · rw [hunused r hr] at hw
      exact hs.filed r m c hw
  · intro c hc
    exact Nat.lt_succ_of_lt (hs.callRecord c hc)
  · intro r hr
    have hrr : s.recordCount = r := Option.some.inj hr
    rw [← hrr]
    exact Nat.lt_succ_self _
  · intro r hr
    exact Nat.lt_succ_of_lt (hs.lingeringRecord r hr)
  · intro r hr hling
    have hrr : s.recordCount = r := Option.some.inj hr
    have hlt := hs.lingeringRecord r hling
    omega
  · intro r hr
    by_cases hrr : r = s.recordCount
    · -- the new task runs
      rw [hrr, hnew] at hr
      rcases htask with h | h <;> rw [h] at hr <;> simp [newRecord] at hr
    · rw [hunused r hrr] at hr
      refine ⟨?_, (hs.live r hr).2⟩
      intro hactive
      exact hrr (Option.some.inj hactive).symm
  · intro c hc hkind
    rw [hrec c hc]
    exact hs.ownerTask c hc hkind
  · intro r hr hx ht hf
    by_cases hrr : r = s.recordCount
    · rw [hrr, hnew] at ht
      have hnone : task = none := ht
      rw [if_pos hnone, hrr] at hx
      exact absurd rfl hx
    · have hlt : r < s.recordCount := by
        have h : r < s.recordCount + 1 := hr
        omega
      rw [hold r hlt] at ht hf
      exact hs.worked r hlt (by simp) ht hf

omit [DecidableEq Member] in
/-- A lingering record is active again. -/
theorem reactivate_healthy {s : Registry Member} (hs : Healthy s none) {r : Nat}
    (hactive : s.active = none) (hlingering : s.lingering = some r) :
    Healthy { s with active := some r, lingering := none } none := by
  refine ⟨?_, hs.ended, hs.unique, hs.filed, hs.callRecord, ?_, ?_, ?_, ?_, hs.ownerTask, hs.worked⟩
  · intro c hc
    have h := hs.served c hc
    refine ⟨h.notQueued, h.notCancelled, h.verdict, ?_, h.member, h.subscribed, h.delivered⟩
    intro hnone
    have hcr := h.active hnone
    rw [hactive] at hcr
    cases hcr
  · intro r' hr'
    have hrr : r = r' := Option.some.inj hr'
    rw [← hrr]
    exact hs.lingeringRecord r hlingering
  · intro r' hr'
    cases hr'
  · intro r' _
    simp
  · intro r' hr'
    refine ⟨?_, by simp⟩
    show some r ≠ some r'
    rw [← hlingering]
    exact (hs.live r' hr').2

/-- What a call gets to evaluate with. -/
structure Obtained (s t : Registry Member) (task : Option TaskState) (r : Nat) (created : Bool) :
    Prop where
  calls : t.calls = s.calls
  callCount : t.callCount = s.callCount
  active : t.active = some r
  pending : (t.records r).resultFuture = none
  newTask : created = true → (t.records r).task = task
  healthy : Healthy t (if created = true ∧ task = none then some r else none)

omit [DecidableEq Member] in
theorem createRecord_obtained {s : Registry Member} (hs : Healthy s none)
    {task : Option TaskState} (htask : task = none ∨ task = some .running)
    (hnobody : ∀ c, Waits s c → (s.recordOf c).resultFuture ≠ none) :
    Obtained s (s.createRecord task) task s.recordCount true := by
  have hnew : (s.createRecord task).records s.recordCount = newRecord task :=
    Function.update_self _ _ _
  have h := createRecord_healthy hs task htask hnobody
  refine ⟨rfl, rfl, rfl, ?_, ?_, ?_⟩
  · rw [hnew]
    rfl
  · intro _
    rw [hnew]
    rfl
  · simpa using h

omit [DecidableEq Member] in
theorem obtain_obtained {s : Registry Member} (hs : Healthy s none) (task : Option TaskState)
    (htask : task = none ∨ task = some .running) :
    Obtained s (s.obtain task).2.2 task (s.obtain task).1 (s.obtain task).2.1 := by
  unfold obtain findRecord
  cases hactive : s.active with
  | some r =>
    simp only
    by_cases hdone : (s.records r).resultFuture.isSome = true
    · rw [if_pos hdone]
      refine createRecord_obtained hs htask ?_
      intro c hc hnone
      have hcr := (hs.served c hc).active hnone
      rw [hactive, Option.some.injEq] at hcr
      unfold recordOf at hnone
      rw [← hcr] at hnone
      simp [hnone] at hdone
    · rw [if_neg hdone]
      have hsame : ({ s with active := some r } : Registry Member) = s := by
        rw [← hactive]
      have hpending : (s.records r).resultFuture = none := by simpa using hdone
      refine ⟨rfl, rfl, rfl, hpending, (fun h => by cases h), ?_⟩
      simpa [hsame] using hs
  | none =>
    -- nobody waits for a result, as no record is active
    have hnobody : ∀ c, Waits s c → (s.recordOf c).resultFuture ≠ none := by
      intro c hc hnone
      have hcr := (hs.served c hc).active hnone
      rw [hactive] at hcr
      cases hcr
    have hpopped : ∀ r, s.lingering = some r → Healthy { s with lingering := none } none := by
      intro r hr
      have h := popLingering_healthy hs r
      unfold popLingering at h
      rw [if_pos hr] at h
      exact h
    cases hlingering : s.lingering with
    | none =>
      simp only
      have hsame : ({ s with lingering := none } : Registry Member) = s := by
        rw [← hlingering]
      rw [hactive] at hsame
      rw [hsame]
      exact createRecord_obtained hs htask hnobody
    | some r =>
      simp only
      by_cases hdone : (s.records r).resultFuture.isSome = true
      · rw [if_pos hdone]
        have h := createRecord_obtained (hpopped r hlingering) htask hnobody
        rw [hactive] at h
        exact ⟨h.calls, h.callCount, h.active, h.pending, h.newTask, h.healthy⟩
      · rw [if_neg hdone]
        have hpending : (s.records r).resultFuture = none := by simpa using hdone
        refine ⟨rfl, rfl, rfl, hpending, (fun h => by cases h), ?_⟩
        simpa using reactivate_healthy hs hactive hlingering

theorem joinAsync_healthy {s : Registry Member} (hs : Healthy s none) {m : Member}
    (hfresh : ∀ c, Unfinished s c → (s.calls c).member ≠ m) :
    Healthy (s.joinAsync m) none := by
  have h := obtain_obtained hs (some .running) (.inr rfl)
  unfold joinAsync
  generalize s.obtain (some .running) = o at h ⊢
  obtain ⟨r, created, t⟩ := o
  have ht : Healthy t none := by simpa using h.healthy
  have hlinger := cancelLinger_keeps (t.records r)
  refine enter_healthy ht (ht.activeRecord r h.active) ?_ ?_ ?_ ?_ ?_ ?_ ?_ ?_ ?_ (.inl rfl)
  · intro c hc
    unfold Unfinished at hc
    rw [h.calls] at hc ⊢
    rw [h.callCount] at hc
    exact hfresh c hc
  · simp
  · intro c hc
    simp [hc]
  · intro _
    simp
  · intro m' c hw
    by_cases hm : m' = m
    · right
      simp [hm] at hw
      exact ⟨hm, hw.symm⟩
    · left
      simpa [hm, hlinger] using hw
  · simp [hlinger]
  · simp [hlinger]
  · intro _
    exact ⟨h.active, h.pending⟩
  · intro hkind
    cases hkind

theorem joinSync_healthy {s : Registry Member} (hs : Healthy s none) {m : Member}
    (hfresh : ∀ c, Unfinished s c → (s.calls c).member ≠ m) (sameLoop : Bool) :
    Healthy (s.joinSync m sameLoop) none := by
  have h := obtain_obtained hs none (.inl rfl)
  unfold joinSync
  generalize s.obtain none = o at h ⊢
  obtain ⟨r, created, t⟩ := o
  have hfresh' : ∀ c, Unfinished t c → (t.calls c).member ≠ m := by
    intro c hc
    unfold Unfinished at hc
    rw [h.calls] at hc ⊢
    rw [h.callCount] at hc
    exact hfresh c hc
  have hr := h.healthy.activeRecord r h.active
  by_cases hcreated : created = true
  · -- the call owns the new record
    simp only [hcreated, if_true]
    have ht : Healthy t (some r) := by simpa [hcreated] using h.healthy
    refine enter_healthy (f := fun a => { a with members := insert m a.members }) ht hr hfresh' rfl
      (fun c hc => hc) ?_ (fun m' c hw => .inl hw) rfl rfl ?_ ?_ (.inr ⟨rfl, rfl⟩)
    · intro hkind
      cases hkind
    · intro hkind
      exact absurd rfl hkind
    · intro _
      exact h.newTask hcreated
  · simp only [hcreated]
    have ht : Healthy t none := by simpa [hcreated] using h.healthy
    by_cases hleave : (sameLoop && ((t.updateRecord r fun a =>
        { a with members := insert m a.members }).records r).task.isSome) = true
    · simp only [hleave, if_true]
      -- the member comes and goes
      have hadmits := ht.admits_self r
      have hcome : Healthy (t.updateRecord r fun a =>
          { a with members := insert m a.members }) none := by
        refine updateRecord_healthy ht ⟨?_, hadmits.callbacks, hadmits.waiters, hadmits.settled,
          hadmits.verdict, hadmits.notCancelled, hadmits.live, hadmits.owner⟩
        intro c hc hcr
        exact Finset.mem_insert_of_mem (hadmits.members c hc hcr)
      exact softcancel_healthy hcome fun c hc => hfresh' c hc.1
    · simp only [hleave]
      refine enter_healthy (f := fun a => { a with members := insert m a.members }) ht hr hfresh' rfl
        (fun c hc => hc) ?_ (fun m' c hw => .inl hw) rfl rfl ?_ ?_ (.inl rfl)
      · intro hkind
        cases hkind
      · intro _
        exact ⟨h.active, h.pending⟩
      · intro hkind
        cases hkind

/-! ## §6. Callbacks, timers and completion. -/

theorem schedule_healthy {s : Registry Member} (hs : Healthy s none) (r : Nat) :
    Healthy (s.schedule r) none := by
  unfold schedule
  simp only
  split
  · exact hs
  · split
    · exact timers_healthy hs r fun a => ⟨rfl, rfl, rfl, rfl, rfl⟩
    · exact timers_healthy hs r fun a => ⟨rfl, rfl, rfl, rfl, rfl⟩

/-- Only work without members is cancelled. -/
theorem expire_healthy {s : Registry Member} (hs : Healthy s none) (r h : Nat) :
    Healthy (s.expire r h) none := by
  unfold expire
  by_cases hset : h ∉ (s.records r).timers
  · rw [if_pos hset]
    exact hs
  rw [if_neg hset]
  set t := s.updateRecord r fun a => { a with timers := a.timers.erase h } with ht
  have htimer : Healthy t none := timers_healthy hs r fun a => ⟨rfl, rfl, rfl, rfl, rfl⟩
  by_cases hlingering : t.lingering ≠ some r
  · simp only [if_pos hlingering]
    exact htimer
  simp only [if_neg hlingering]
  have hlingering' : t.lingering = some r := not_not.mp hlingering
  have hpopped : Healthy { t with lingering := none } none := by
    have hp := popLingering_healthy htimer r
    unfold popLingering at hp
    rw [if_pos hlingering'] at hp
    exact hp
  by_cases hcancel : (t.records r).members = ∅ ∧ (t.records r).task.isSome = true
  · simp only [if_pos hcancel]
    by_cases hrunning : (t.records r).task = some .running
    · have hset := setTask_healthy (t := .cancelRequested) hpopped (r := r) ?_ ?_ ?_
      · have heq : (({ t with lingering := none } : Registry Member).updateRecord r requestCancel) =
            ({ t with lingering := none } : Registry Member).updateRecord r
              (fun a => { a with task := some .cancelRequested }) := by
          unfold updateRecord requestCancel
          simp only [if_pos hrunning]
        rw [heq]
        exact hset
      · show (t.records r).task ≠ none
        rw [hrunning]
        simp
      · -- whoever waits is a member
        intro _ c hc hcr
        have hmem := (hpopped.served c hc).member
        unfold recordOf at hmem
        rw [hcr] at hmem
        rw [show ({ t with lingering := none } : Registry Member).records r = t.records r from rfl,
          hcancel.1] at hmem
        exact absurd hmem (Finset.notMem_empty _)
      · intro _
        refine ⟨?_, by simp⟩
        intro hactive
        exact htimer.distinct r hactive hlingering'
    · have heq : (({ t with lingering := none } : Registry Member).updateRecord r requestCancel) =
          { t with lingering := none } := by
        unfold updateRecord requestCancel
        simp only [if_neg hrunning]
        rw [Function.update_eq_self]
      rw [heq]
      exact hpopped
  · simp only [if_neg hcancel]
    exact hpopped

omit [DecidableEq Member] in
/-- The owner returns what it has settled. -/
theorem finishOwner_healthy {s : Registry Member} (hs : Healthy s none) {c : Nat} {v : Verdict}
    (hkind : (s.calls c).kind = .owns) (hv : (s.recordOf c).resultFuture = some v) :
    Healthy (s.finishOwner c v) none := by
  unfold finishOwner
  simp only
  have hdone : (s.records (s.calls c).record).resultFuture ≠ none := by
    rw [show (s.records (s.calls c).record).resultFuture = some v from hv]
    simp
  have hpopped := popLingering_healthy (popActive_healthy hs fun _ => hdone) (s.calls c).record
  have hquiet := timers_healthy hpopped (s.calls c).record cancelLinger_keeps
  set t := ((s.popActive (s.calls c).record).popLingering (s.calls c).record).updateRecord
    (s.calls c).record cancelLinger with ht
  have hcalls : t.calls = s.calls := by
    show ((s.popActive (s.calls c).record).popLingering (s.calls c).record).calls = _
    rw [popLingering_calls, popActive_calls]
  have hfuture : (t.recordOf c).resultFuture ≠ none := by
    unfold recordOf
    rw [hcalls, ht, updateRecord_records, if_pos rfl, (cancelLinger_keeps _).2.2.2.1,
      popLingering_records, popActive_records]
    exact hdone
  have howns : (t.calls c).kind = .owns := by
    rw [hcalls]
    exact hkind
  refine updateCall_healthy (f := fun call => { call with ended := some v }) hquiet ⟨rfl, rfl, rfl⟩
    (fun h => by cases h) ?_ ?_ ?_
  · intro hw
    have h := hw.2.2
    rw [updateCall_calls, if_pos rfl] at h
    exact absurd howns h
  · intro _ _ _ _ h
    exact absurd howns h
  · intro _ _
    exact .inr hfuture

omit [DecidableEq Member] in
/-- A task that ended without a result has nobody waiting for it. -/
theorem discardActive_healthy {s : Registry Member} (hs : Healthy s none) {r : Nat}
    (hdone : (s.records r).task = some .done) : Healthy (s.discardActive r) none := by
  unfold discardActive
  simp only
  have hpopped := popLingering_healthy (popActive_healthy (r := r) hs (by
    intro hactive hnone
    exact (hs.live r (.inr ⟨hdone, hnone⟩)).1 hactive)) r
  have hquiet := timers_healthy hpopped r cancelLinger_keeps
  refine settle_healthy hquiet r ?_
  intro _ hnone c hc hcr
  have hrec : (((s.popActive r).popLingering r).updateRecord r cancelLinger).records r =
      cancelLinger (s.records r) := by
    rw [updateRecord_records, if_pos rfl, popLingering_records, popActive_records]
  have hlive := hquiet.live r (.inr ?_)
  · have h := (hquiet.served c hc).active
    unfold recordOf at h
    rw [hcr] at h
    exact hlive.1 (h hnone)
  · refine ⟨?_, hnone⟩
    rw [hrec, (cancelLinger_keeps _).2.2.1]
    exact hdone

theorem workVerdict_ne (failed : Bool) : workVerdict failed ≠ .cancelled := by
  cases failed <;> simp [workVerdict]

/-! ## §7. Every run. -/

/-- The condition: nobody joins under the member id of an unfinished call. -/
def Fresh (s : Registry Member) : Event Member → Prop
  | .joinAsync m => ∀ c, Unfinished s c → (s.calls c).member ≠ m
  | .joinSync m _ => ∀ c, Unfinished s c → (s.calls c).member ≠ m
  | _ => True

theorem step_healthy {s : Registry Member} (hs : Healthy s none) {e : Event Member}
    (hfresh : Fresh s e) : Healthy (s.stepEvent e) none := by
  cases e with
  | joinAsync m => exact joinAsync_healthy hs hfresh
  | joinSync m sameLoop => exact joinSync_healthy hs hfresh sameLoop
  | cancelCall c =>
    simp only [stepEvent]
    split
    next h =>
      obtain ⟨hc, hkind⟩ := h
      -- the call is targeted, and ends
      set t := s.updateCall c fun call => { call with targeted := true } with ht
      have hself : t.calls c = { s.calls c with targeted := true } := by
        rw [ht, updateCall_calls, if_pos rfl]
      have htargeted : Healthy t none := by
        refine updateCall_healthy hs ⟨rfl, rfl, rfl⟩ id ?_ ?_ (fun _ hnone => Or.inl hnone)
        · intro hw
          have hfalse := hw.2.1
          rw [← ht, hself] at hfalse
          cases hfalse
        · intro _ _ _ hfalse
          cases hfalse
      refine endCall_healthy htargeted ?_ ?_ ?_
      · refine ⟨hc.1, ?_⟩
        rw [hself]
        exact hc.2
      · rw [hself]
        show (s.calls c).kind ≠ .owns
        rw [hkind]
        simp
      · rw [hself]
        intro hfalse
        cases hfalse
    next => exact hs
  | softcancel m => exact target_softcancel_healthy hs m
  | deliverCancel c =>
    simp only [stepEvent]
    split
    next hqueued =>
      refine updateCall_healthy hs ⟨rfl, rfl, rfl⟩ id ?_ (hs.ended c)
        (fun _ hnone => Or.inl hnone)
      -- no cancel is queued for a waiting call
      intro hw
      have hwaits : Waits s c := by
        unfold Waits Unfinished at hw ⊢
        rw [updateCall_calls, if_pos rfl] at hw
        exact hw
      rw [(hs.served c hwaits).notQueued] at hqueued
      cases hqueued
    next => exact hs
  | deliverResult c =>
    simp only [stepEvent]
    cases hfuture : (s.records (s.calls c).record).resultFuture with
    | none => exact hs
    | some v =>
      simp only
      split
      next =>
        refine updateCall_healthy hs ⟨rfl, rfl, rfl⟩ id ?_ (hs.ended c)
          (fun _ hnone => Or.inl hnone)
        intro hw
        have hwaits : Waits s c := by
          unfold Waits Unfinished at hw ⊢
          rw [updateCall_calls, if_pos rfl] at hw
          exact hw
        refine ⟨hwaits, (hs.served c hwaits).notQueued, ?_⟩
        intro w hvw
        rw [← hvw]
        exact hfuture
      next => exact hs
  | resume c =>
    simp only [stepEvent]
    split
    next hc =>
      -- an untargeted call has nothing but the verdict to return with
      have hserved : (s.calls c).kind ≠ .owns → (s.calls c).targeted = false → Served s c := by
        intro hkind htar
        exact hs.served c ⟨hc, htar, hkind⟩
      cases hkind : (s.calls c).kind with
      | owns => exact hs
      | awaits =>
        cases hwaiter : (s.calls c).waiter with
        | none => exact hs
        | some v =>
          have hne : (s.calls c).kind ≠ .owns := by simp [hkind]
          refine endCall_healthy hs hc hne ?_
          intro htar
          have h := hserved hne htar
          have hfuture := h.delivered v hwaiter
          refine ⟨?_, hfuture⟩
          intro hv
          rw [hv] at hfuture
          exact h.verdict hfuture
      | blocks =>
        cases hfuture : (s.records (s.calls c).record).resultFuture with
        | none => exact hs
        | some v =>
          have hne : (s.calls c).kind ≠ .owns := by simp [hkind]
          refine endCall_healthy hs hc hne ?_
          intro htar
          refine ⟨?_, hfuture⟩
          intro hv
          rw [hv] at hfuture
          exact (hserved hne htar).verdict hfuture
    next => exact hs
  | schedule r => exact schedule_healthy hs r
  | expire r h => exact expire_healthy hs r h
  | settleOwner c failed =>
    simp only [stepEvent]
    split
    next => exact settle_healthy hs _ fun h => absurd h (workVerdict_ne failed)
    next => exact hs
  | finishOwner c =>
    simp only [stepEvent]
    cases hfuture : (s.records (s.calls c).record).resultFuture with
    | none => exact hs
    | some v =>
      simp only
      split
      next h => exact finishOwner_healthy hs h.2 hfuture
      next => exact hs
  | settleTask r failed =>
    simp only [stepEvent]
    split
    next => exact settle_healthy hs _ fun h => absurd h (workVerdict_ne failed)
    next => exact hs
  | cancelTask r =>
    simp only [stepEvent]
    split
    next hcancel =>
      refine settle_healthy hs _ fun _ _ c hc hcr => ?_
      have h := (hs.served c hc).notCancelled
      unfold recordOf at h
      rw [hcr] at h
      exact h hcancel
    next => exact hs
  | finishTask r =>
    simp only [stepEvent]
    split
    next h =>
      obtain ⟨htask, hdone⟩ := h
      have hsome : (s.records r).task ≠ none := by
        rcases htask with h | h <;> rw [h] <;> simp
      have hpending : (s.records r).resultFuture ≠ none := by
        intro hnone
        simp [hnone] at hdone
      unfold finishTask
      refine popActive_healthy (setTask_healthy hs hsome ?_ ?_) ?_
      · intro h
        cases h
      · rintro (h | ⟨-, h⟩)
        · cases h
        · exact absurd h hpending
      · intro _
        rw [updateRecord_records, if_pos rfl]
        exact hpending
    next => exact hs
  | dropTask r =>
    simp only [stepEvent]
    split
    next h =>
      refine setTask_healthy hs (by simp [h.1]) (fun h => by cases h) ?_
      intro _
      exact hs.live r (.inl h.1)
    next => exact hs
  | discard r =>
    simp only [stepEvent]
    split
    next hdone => exact discardActive_healthy hs hdone
    next => exact hs

theorem exec_healthy {m : Member} {events : List (Event Member)}
    (h : Run.StepsMeet step (fun _ s e => Fresh s e) (initial m) events) :
    Healthy (Run.exec step (initial m) events) none := by
  apply Run.exec_traced_invariant step (fun _ s e => Fresh s e) (fun _ s => Healthy s none)
  · exact initial_healthy m
  · intro _ s e hs hfresh
    exact step_healthy hs hfresh
  · exact h

/-- The state of a call that no other call has disturbed: if it ended, then
with the verdict of the work; if the work is done, two callbacks end it with
that verdict; if not, its record is still active, and somebody is at work. -/
def Undisturbed (s : Registry Member) (c : Nat) : Prop :=
  match (s.calls c).ended with
  | some v => v ≠ .cancelled ∧ (s.recordOf c).resultFuture = some v
  | none =>
    (s.recordOf c).task ≠ some .cancelRequested ∧
    match (s.recordOf c).resultFuture with
    | some v =>
      v ≠ .cancelled ∧ ((Run.exec step s [.deliverResult c, .resume c]).calls c).ended = some v
    | none =>
      s.active = some (s.calls c).record ∧
      ((s.recordOf c).task = some .running ∨
        ∃ d, Unfinished s d ∧ (s.calls d).kind = .owns ∧ (s.calls d).record = (s.calls c).record)

/-- A softcancel keeps how calls ended. -/
theorem softcancel_ended (s : Registry Member) (m : Member) (c : Nat) :
    ((s.softcancel m).1.calls c).ended = (s.calls c).ended := by
  have hqueue : ∀ r, ((s.removeMember r m).calls c).ended = (s.calls c).ended := by
    intro r
    unfold removeMember queueCancel
    cases (s.records r).waiters m with
    | none => rfl
    | some d =>
      simp only
      rw [updateCall_calls]
      by_cases hcd : c = d
      · rw [if_pos hcd, hcd]
        rfl
      · rw [if_neg hcd]
        rfl
  unfold softcancel
  cases s.active with
  | none => rfl
  | some r =>
    simp only
    split
    · rfl
    · split
      · split
        · exact hqueue r
        · exact hqueue r
      · exact hqueue r

theorem endCall_ended (s : Registry Member) (c : Nat) (v : Verdict) :
    ((s.endCall c v).calls c).ended = some v := by
  unfold endCall
  rw [softcancel_ended, updateCall_calls, if_pos rfl]

/-- The verdict reaches a waiting call. -/
theorem Served.resumes {s : Registry Member} {c : Nat} (h : Served s c) (hc : Unfinished s c)
    (hkind : (s.calls c).kind ≠ .owns) {v : Verdict} (hv : (s.recordOf c).resultFuture = some v) :
    ((Run.exec step s [.deliverResult c, .resume c]).calls c).ended = some v := by
  show (((s.stepEvent (.deliverResult c)).stepEvent (.resume c)).calls c).ended = some v
  unfold recordOf at hv
  -- after the delivery the call waits on a waiter that has the verdict
  set t := s.stepEvent (.deliverResult c) with ht
  have hsame : t.callCount = s.callCount ∧ t.records = s.records ∧
      (t.calls c).ended = (s.calls c).ended ∧ (t.calls c).kind = (s.calls c).kind ∧
      (t.calls c).record = (s.calls c).record ∧
      ((s.calls c).kind = .awaits → (t.calls c).waiter = some v) := by
    rw [ht]
    simp only [stepEvent, hv]
    split
    next =>
      rw [updateCall_calls, if_pos rfl]
      exact ⟨rfl, rfl, rfl, rfl, rfl, fun _ => rfl⟩
    next hno =>
      refine ⟨rfl, rfl, rfl, rfl, rfl, ?_⟩
      intro hawaits
      cases hw : (s.calls c).waiter with
      | none => exact absurd ⟨h.subscribed hawaits, hw⟩ hno
      | some w =>
        have hfuture := h.delivered w hw
        unfold recordOf at hfuture
        rw [hv] at hfuture
        exact hfuture.symm
  obtain ⟨hcount, hrecords, hended, hk, hr, hwaiter⟩ := hsame
  have hunf : Unfinished t c := by
    refine ⟨?_, ?_⟩
    · rw [hcount]
      exact hc.1
    · rw [hended]
      exact hc.2
  simp only [stepEvent]
  rw [if_pos hunf, hk]
  cases hkc : (s.calls c).kind with
  | owns => exact absurd hkc hkind
  | awaits =>
    simp only [hwaiter hkc]
    exact endCall_ended t c v
  | blocks =>
    simp only
    rw [hr, hrecords, hv]
    exact endCall_ended t c v

/-- Over every run in which nobody joins under the member id of an unfinished
call, a waiting call that is not itself cancelled or softcancelled is
undisturbed. -/
theorem waiterIndependence (m : Member) (events : List (Event Member))
    (hfresh : Run.StepsMeet step (fun _ s e => Fresh s e) (initial m) events) (c : Nat)
    (hc : c < (Run.exec step (initial m) events).callCount)
    (hkind : ((Run.exec step (initial m) events).calls c).kind ≠ .owns)
    (htargeted : ((Run.exec step (initial m) events).calls c).targeted = false) :
    Undisturbed (Run.exec step (initial m) events) c := by
  have hs := exec_healthy hfresh
  generalize Run.exec step (initial m) events = s at hs hc hkind htargeted ⊢
  unfold Undisturbed
  cases hended : (s.calls c).ended with
  | some v => exact hs.ended c v hc hended htargeted hkind
  | none =>
    have hunf : Unfinished s c := ⟨hc, hended⟩
    -- the call goes on, so its record serves it
    have h := hs.served c ⟨hunf, htargeted, hkind⟩
    refine ⟨h.notCancelled, ?_⟩
    cases hfuture : (s.recordOf c).resultFuture with
    | some v =>
      refine ⟨?_, h.resumes hunf hkind hfuture⟩
      intro hv
      rw [hv] at hfuture
      exact h.verdict hfuture
    | none =>
      have hactive := h.active hfuture
      refine ⟨hactive, ?_⟩
      cases htask : (s.recordOf c).task with
      | none => exact .inr (hs.worked _ (hs.callRecord c hc) (by simp) htask hfuture)
      | some t =>
        left
        cases t with
        | running => rfl
        | cancelRequested => exact absurd htask h.notCancelled
        | done => exact absurd hactive (hs.live _ (.inr ⟨htask, hfuture⟩)).1

end

/-- Two calls with their own member ids; the first is cancelled, the second
gets the result. -/
theorem waiterIndependence_twoMembers :
    Undisturbed (Run.exec step (initial 0)
      [.joinAsync 1, .joinAsync 2, .cancelCall 0, .settleTask 0 false, .finishTask 0]) 1 := by
  have hfresh : Run.StepsMeet step (fun _ s e => Fresh s e) (initial 0)
      [.joinAsync 1, .joinAsync 2, .cancelCall 0, .settleTask 0 false, .finishTask 0] := by
    refine (((((Run.StepsMeet.nil step _ _).snoc step ?_).snoc step ?_).snoc step trivial).snoc step
      trivial).snoc step trivial
    · intro c hc
      exact absurd hc.1 (Nat.not_lt_zero c)
    · -- the first call has the member 1
      intro c hc
      have hzero : c = 0 := Nat.lt_one_iff.mp hc.1
      rw [hzero]
      decide
  exact waiterIndependence 0 _ hfresh 1 (by decide) (by decide) (by decide)

/-- Two calls through one Expression object, which share its member id:
cancelling the first cancels the second. -/
theorem sharedMember_cancelled :
    ∃ s : Registry Nat,
      s = Run.exec step (initial 0)
        [.joinAsync 1, .joinAsync 1, .cancelCall 0, .deliverCancel 1, .resume 1] ∧
      1 < s.callCount ∧ (s.calls 1).kind ≠ .owns ∧ (s.calls 1).targeted = false ∧
      (s.calls 1).ended = some .cancelled ∧ ¬ Undisturbed s 1 := by
  refine ⟨_, rfl, by decide, by decide, by decide, by decide, ?_⟩
  intro h
  -- the second call ended with a `CancelledError`
  exact h.1 rfl

end SeamlessCore.Expression.Registry
