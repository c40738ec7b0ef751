/-
  SeamlessCore.Cache.BufferSource — shared lookups in local buffer sources.

  Requests for one checksum on one event loop share a lookup task.  The
  registry keeps a record of the task with the number of its waiters; each
  waiter awaits a shield of the task, and leaves through a `finally` that
  gives the record back.  The record also goes when the task is done, through
  its completion callback.

  The events are the turns of the event loop, in any order: a request up to
  its first suspension, the end of a lookup (with any outcome, whether it was
  cancelled or not), its completion callback, the delivery of the outcome to
  a shield, the cancellation of a waiter, and its way out.

  Main results:
    * `sharing_initial`, `step_sharing` — the invariant of records, tasks and
      waiters, event by event;
    * `finished_other` — a completion callback leaves the records of other
      lookups alone;
    * `sharedLookups` — over all runs: counts, cancellation and outcomes.

  Source: `seamless/caching/buffer_source.py`.
-/
import SeamlessCore.Lib.Dict
import SeamlessCore.Lib.Run

namespace SeamlessCore.BufferSource

/-! ## §1. State. -/

/-- A lookup task.  `V` is what a task can end with: a result, an exception
or its cancellation. -/
structure Lookup (K V : Type) where
  key : K
  /-- `task.cancel()` was called -/
  cancelRequested : Bool
  outcome : Option V
  /-- the completion callback has run -/
  finished : Bool

/-- What a request ends with -/
inductive Received (V : Type) where
  | outcome (v : V)
  | cancelledError
  deriving DecidableEq

/-- A request from its first suspension on -/
structure Waiter (K V : Type) where
  key : K
  task : Nat
  /-- the request itself was cancelled -/
  cancelled : Bool
  /-- what the shield was given -/
  outer : Option V
  received : Option (Received V)

/-- `BufferSourceRegistry`, with the tasks and the requests made so far -/
structure Registry (K V : Type) where
  /-- `self._pending`; the keys are a checksum and `async_only` -/
  pending : Dict K (Nat × Int)
  tasks : List (Lookup K V)
  waiters : List (Waiter K V)

variable {K V : Type} [DecidableEq K]

/-- `BufferSourceRegistry.__init__` -/
def initial : Registry K V := ⟨∅, [], []⟩

/-- The events of the event loop -/
inductive Event (K V : Type) where
  /-- `get_buffer_async` up to its first suspension, with or without sources -/
  | request (key : K) (sources : Bool)
  /-- the lookup task ends -/
  | settle (t : Nat) (v : V)
  /-- the completion callback `finished` -/
  | finished (t : Nat)
  /-- the shield of a waiter takes over the outcome -/
  | deliver (w : Nat)
  /-- the request is cancelled -/
  | cancel (w : Nat)
  /-- the request goes on after its `await` -/
  | resume (w : Nat)

/-! ## §2. Transitions. -/

/-- A request is live until it has left its `finally`. -/
def Waiter.live (w : Waiter K V) : Bool := w.received.isNone

/-- `asyncio.shield(task)`: a task that is done is awaited itself, so that the
request goes on at once. -/
def shielded (s : Registry K V) (key : K) (t : Nat) : Waiter K V where
  key := key
  task := t
  cancelled := false
  outer := none
  received := match s.tasks[t]? with
    | none => none
    | some lookup => lookup.outcome.map Received.outcome

/-- `task.cancel()`, unless the task is done -/
def requestCancel (s : Registry K V) (t : Nat) : Registry K V :=
  match s.tasks[t]? with
  | none => s
  | some lookup =>
    if lookup.outcome.isSome then s
    else { s with tasks := s.tasks.set t { lookup with cancelRequested := true } }

/-- The `finally` of `get_buffer_async` -/
def leave (s : Registry K V) (key : K) (t : Nat) : Registry K V :=
  match s.pending.lookup key with
  | none => s
  | some (task, waiters) =>
    if task = t then
      let remaining := waiters - 1
      if remaining = 0 then requestCancel { s with pending := s.pending.erase key } t
      else { s with pending := s.pending.set key (t, remaining) }
    else s

/-- `get_buffer_async(checksum, async_only)` with sources: one record more, or
one waiter more on the record; the task of a record may be done already. -/
def request (s : Registry K V) (key : K) : Registry K V :=
  match s.pending.lookup key with
  | none =>
    let t := s.tasks.length
    { pending := s.pending.set key (t, 1)
      tasks := s.tasks ++ [{ key := key, cancelRequested := false, outcome := none, finished := false }]
      waiters := s.waiters ++ [{ key := key, task := t, cancelled := false, outer := none,
                                 received := none }] }
  | some (t, waiters) =>
    let w := shielded s key t
    let s := { s with
      pending := s.pending.set key (t, waiters + 1)
      waiters := s.waiters ++ [w] }
    if w.live then s else leave s key t

/-- `finished(fetch)` -/
def finished (s : Registry K V) (t : Nat) : Registry K V :=
  match s.tasks[t]? with
  | none => s
  | some lookup =>
    if lookup.outcome.isNone || lookup.finished then s
    else
      let s := { s with tasks := s.tasks.set t { lookup with finished := true } }
      match s.pending.lookup lookup.key with
      | none => s
      | some (task, _) =>
        if task = t then { s with pending := s.pending.erase lookup.key } else s

/-- The lookup task ends. -/
def settle (s : Registry K V) (t : Nat) (v : V) : Registry K V :=
  match s.tasks[t]? with
  | none => s
  | some lookup =>
    if lookup.outcome.isSome then s
    else { s with tasks := s.tasks.set t { lookup with outcome := some v } }

/-- The outcome of a task that is done -/
def outcomeOf (s : Registry K V) (t : Nat) : Option V := s.tasks[t]?.bind Lookup.outcome

/-- The shield of a waiter takes over the outcome of its task, unless the
waiter was cancelled. -/
def deliver (s : Registry K V) (w : Nat) : Registry K V :=
  match s.waiters[w]? with
  | none => s
  | some waiter =>
    if !waiter.live || waiter.cancelled || waiter.outer.isSome then s
    else { s with waiters := s.waiters.set w { waiter with outer := outcomeOf s waiter.task } }

/-- The request of a waiter is cancelled: its shield is, if it is pending, and
the request will go on with a `CancelledError`. -/
def cancel (s : Registry K V) (w : Nat) : Registry K V :=
  match s.waiters[w]? with
  | none => s
  | some waiter =>
    if waiter.live then { s with waiters := s.waiters.set w { waiter with cancelled := true } }
    else s

/-- What a request goes on with -/
def Waiter.wakesWith (w : Waiter K V) : Option (Received V) :=
  if w.cancelled then some .cancelledError else w.outer.map .outcome

/-- The request goes on: it receives what it was woken with and leaves. -/
def resume (s : Registry K V) (w : Nat) : Registry K V :=
  match s.waiters[w]? with
  | none => s
  | some waiter =>
    match waiter.live, waiter.wakesWith with
    | true, some r =>
      leave { s with waiters := s.waiters.set w { waiter with received := some r } }
        waiter.key waiter.task
    | _, _ => s

/-- One event; one that cannot happen changes nothing. -/
def step (s : Registry K V) : Event K V → Registry K V × Unit
  | .request key true => (request s key, ())
  | .request _ false => (s, ())
  | .settle t v => (settle s t v, ())
  | .finished t => (finished s t, ())
  | .deliver w => (deliver s w, ())
  | .cancel w => (cancel s w, ())
  | .resume w => (resume s w, ())

/-- The state after some events -/
def after (events : List (Event K V)) : Registry K V := Run.exec step initial events

/-! ## §3. The invariant. -/

/-- The number of live waiters of a lookup -/
def liveOn (s : Registry K V) (t : Nat) : Nat :=
  s.waiters.countP fun w => w.live && w.task == t

/-- The invariant of the registry.  `leaving` is the lookup of a request that
has ended but not yet given back its place on the record. -/
structure Sharing (s : Registry K V) (leaving : Option Nat) : Prop where
  counts : ∀ key t n, s.pending.lookup key = some (t, n) →
    n = liveOn s t + (if leaving = some t then 1 else 0) ∧ 0 < n
  known : ∀ key t n, s.pending.lookup key = some (t, n) →
    ∃ l, s.tasks[t]? = some l ∧ l.key = key ∧ l.cancelRequested = false
  /-- A live waiter is counted as long as its lookup has a callback to come. -/
  recorded : ∀ w ∈ s.waiters, w.live = true → ∀ l, s.tasks[w.task]? = some l → l.finished = false →
    ∃ n, s.pending.lookup w.key = some (w.task, n)
  cancelled : ∀ t l, s.tasks[t]? = some l → l.cancelRequested = true → liveOn s t = 0
  tasked : ∀ w ∈ s.waiters, ∃ l, s.tasks[w.task]? = some l ∧ l.key = w.key
  handed : ∀ w ∈ s.waiters, ∀ v, w.outer = some v → outcomeOf s w.task = some v
  served : ∀ w ∈ s.waiters, ∀ v, w.received = some (.outcome v) →
    ∃ l, s.tasks[w.task]? = some l ∧ l.outcome = some v ∧ l.cancelRequested = false
  refused : ∀ w ∈ s.waiters, w.received = some .cancelledError → w.cancelled = true

theorem sharing_initial : Sharing (initial : Registry K V) none := by
  refine ⟨?_, ?_, ?_, ?_, ?_, ?_, ?_, ?_⟩ <;> intros <;> simp_all [initial]

omit [DecidableEq K] in
theorem liveOn_setWaiter {s : Registry K V} {i : Nat} {w : Waiter K V}
    (h : s.waiters[i]? = some w) (w' : Waiter K V) (t : Nat) :
    liveOn { s with waiters := s.waiters.set i w' } t + (if w.live && w.task == t then 1 else 0) =
      liveOn s t + if w'.live && w'.task == t then 1 else 0 := by
  obtain ⟨hi, hw⟩ := List.getElem?_eq_some_iff.mp h
  show (s.waiters.set i w').countP _ + _ = s.waiters.countP _ + _
  rw [List.countP_set hi, hw]
  have hpos : (w.live && w.task == t) = true → 0 < s.waiters.countP fun w => w.live && w.task == t :=
    fun hp => List.countP_pos_iff.mpr ⟨w, List.mem_of_getElem? h, hp⟩
  split
  · next hp =>
    have hcount := hpos hp
    omega
  · omega

omit [DecidableEq K] in
/-- A live waiter counts. -/
theorem liveOn_pos {s : Registry K V} {w : Waiter K V} (hw : w ∈ s.waiters) (hlive : w.live = true) :
    0 < liveOn s w.task :=
  List.countP_pos_iff.mpr ⟨w, hw, by simp [hlive]⟩

/-- The record of a lookup is under its key. -/
theorem Sharing.record_key {s : Registry K V} {x : Option Nat} (h : Sharing s x) {t : Nat}
    {l : Lookup K V} (hl : s.tasks[t]? = some l) {key : K} {n : Int}
    (hrec : s.pending.lookup key = some (t, n)) : key = l.key := by
  obtain ⟨l', hl', hkey, -⟩ := h.known key t n hrec
  rw [hl, Option.some.injEq] at hl'
  rw [← hkey, hl']

/-- A live waiter may be told something. -/
theorem updateWaiter_sharing {s : Registry K V} {x : Option Nat} (h : Sharing s x) {i : Nat}
    {w w' : Waiter K V} (hw : s.waiters[i]? = some w) (hkey : w'.key = w.key)
    (htask : w'.task = w.task) (hlive : w.live = true) (hreceived : w'.received = none)
    (houter : ∀ v, w'.outer = some v → outcomeOf s w.task = some v) :
    Sharing { s with waiters := s.waiters.set i w' } x := by
  have hmem : w ∈ s.waiters := List.mem_of_getElem? hw
  have hlive' : w'.live = true := by
    unfold Waiter.live
    rw [hreceived]
    rfl
  -- the waiter is as live as before, so the counts stay
  have hcount : ∀ t, liveOn { s with waiters := s.waiters.set i w' } t = liveOn s t := by
    intro t
    have hset := liveOn_setWaiter hw w' t
    rw [hlive, hlive', htask] at hset
    omega
  have hcases : ∀ v ∈ s.waiters.set i w', v ∈ s.waiters ∨ v = w' :=
    fun v hv => List.mem_or_eq_of_mem_set hv
  refine ⟨?_, h.known, ?_, ?_, ?_, ?_, ?_, ?_⟩
  · intro key t n hrec
    rw [hcount]
    exact h.counts key t n hrec
  · intro v hv hvlive l hl hfin
    rcases hcases v hv with hv | hv
    · exact h.recorded v hv hvlive l hl hfin
    · rw [hv, hkey, htask]
      rw [hv, htask] at hl
      exact h.recorded w hmem hlive l hl hfin
  · intro t l hl hreq
    rw [hcount]
    exact h.cancelled t l hl hreq
  · intro v hv
    rcases hcases v hv with hv | hv
    · exact h.tasked v hv
    · rw [hv, hkey, htask]
      exact h.tasked w hmem
  · intro v hv y hy
    rcases hcases v hv with hv | hv
    · exact h.handed v hv y hy
    · rw [hv] at hy ⊢
      rw [htask]
      exact houter y hy
  · intro v hv y hy
    rcases hcases v hv with hv | hv
    · exact h.served v hv y hy
    · rw [hv, hreceived] at hy
      cases hy
  · intro v hv hy
    rcases hcases v hv with hv | hv
    · exact h.refused v hv hy
    · rw [hv, hreceived] at hy
      cases hy

theorem deliver_sharing {s : Registry K V} (h : Sharing s none) (i : Nat) :
    Sharing (deliver s i) none := by
  unfold deliver
  cases hw : s.waiters[i]? with
  | none => exact h
  | some w =>
    simp only
    split
    · exact h
    · next hcond =>
      have hlive : w.live = true := by
        by_contra hno
        simp [hno] at hcond
      have hnone : w.received = none := by simpa [Waiter.live] using hlive
      exact updateWaiter_sharing h hw rfl rfl hlive hnone fun v hv => hv

theorem cancel_sharing {s : Registry K V} (h : Sharing s none) (i : Nat) :
    Sharing (cancel s i) none := by
  unfold cancel
  cases hw : s.waiters[i]? with
  | none => exact h
  | some w =>
    simp only
    split
    · next hlive =>
      have hnone : w.received = none := by simpa [Waiter.live] using hlive
      exact updateWaiter_sharing h hw rfl rfl hlive hnone fun v hv =>
        h.handed w (List.mem_of_getElem? hw) v hv
    · exact h

omit [DecidableEq K] in
theorem getElem?_setTask {s : Registry K V} {t : Nat} {l : Lookup K V}
    (h : s.tasks[t]? = some l) (l' : Lookup K V) (t' : Nat) :
    (s.tasks.set t l')[t']? = if t' = t then some l' else s.tasks[t']? := by
  obtain ⟨ht, -⟩ := List.getElem?_eq_some_iff.mp h
  by_cases heq : t' = t
  · rw [if_pos heq, heq, List.getElem?_set_self ht]
  · rw [if_neg heq, List.getElem?_set_ne (Ne.symm heq)]

/-- A lookup task may move on: it ends, is cancelled where nobody waits and no
record leads to it, or runs its callback. -/
theorem updateTask_sharing {s : Registry K V} {x : Option Nat} (h : Sharing s x) {t : Nat}
    {l l' : Lookup K V} (hl : s.tasks[t]? = some l) (hkey : l'.key = l.key)
    (houtcome : ∀ v, l.outcome = some v → l'.outcome = some v)
    (hcancel : l'.cancelRequested = true → l.cancelRequested = false →
      liveOn s t = 0 ∧ l.outcome = none ∧ ∀ key n, s.pending.lookup key ≠ some (t, n))
    (hfinished : l'.finished = false → l.finished = false) :
    Sharing { s with tasks := s.tasks.set t l' } x := by
  have hget := getElem?_setTask hl l'
  -- an outcome that is there stays
  have hsettled : ∀ t' v, outcomeOf s t' = some v →
      outcomeOf { s with tasks := s.tasks.set t l' } t' = some v := by
    intro t' v hv
    unfold outcomeOf at hv ⊢
    rw [hget]
    by_cases heq : t' = t
    · rw [heq, hl] at hv
      rw [if_pos heq]
      exact houtcome v hv
    · rw [if_neg heq]
      exact hv
  refine ⟨h.counts, ?_, ?_, ?_, ?_, ?_, ?_, h.refused⟩
  · intro key t' n hrec
    obtain ⟨m, hm, hmkey, hmcancel⟩ := h.known key t' n hrec
    show ∃ l, (s.tasks.set t l')[t']? = some l ∧ _
    rw [hget]
    by_cases heq : t' = t
    · rw [if_pos heq]
      rw [heq, hl, Option.some.injEq] at hm
      refine ⟨l', rfl, by rw [hkey, hm, hmkey], ?_⟩
      -- a task with a record is not cancelled by the update
      by_contra hreq
      have hno := (hcancel (by simpa using hreq) (by rw [hm, hmcancel])).2.2 key n
      rw [← heq] at hno
      exact hno hrec
    · rw [if_neg heq]
      exact ⟨m, hm, hmkey, hmcancel⟩
  · intro w hw hlive m hm hfin
    change (s.tasks.set t l')[w.task]? = some m at hm
    rw [hget] at hm
    by_cases heq : w.task = t
    · rw [if_pos heq, Option.some.injEq] at hm
      rw [← hm] at hfin
      exact h.recorded w hw hlive l (heq ▸ hl) (hfinished hfin)
    · rw [if_neg heq] at hm
      exact h.recorded w hw hlive m hm hfin
  · intro t' m hm hreq
    change (s.tasks.set t l')[t']? = some m at hm
    rw [hget] at hm
    by_cases heq : t' = t
    · rw [if_pos heq, Option.some.injEq] at hm
      rw [← hm] at hreq
      show liveOn s t' = 0
      rw [heq]
      cases hold : l.cancelRequested with
      | true => exact h.cancelled t l hl hold
      | false => exact (hcancel hreq hold).1
    · rw [if_neg heq] at hm
      exact h.cancelled t' m hm hreq
  · intro w hw
    obtain ⟨m, hm, hmkey⟩ := h.tasked w hw
    show ∃ l, (s.tasks.set t l')[w.task]? = some l ∧ _
    rw [hget]
    by_cases heq : w.task = t
    · rw [heq, hl, Option.some.injEq] at hm
      rw [if_pos heq]
      exact ⟨l', rfl, by rw [hkey, hm, hmkey]⟩
    · rw [if_neg heq]
      exact ⟨m, hm, hmkey⟩
  · intro w hw v hv
    exact hsettled _ v (h.handed w hw v hv)
  · intro w hw v hv
    obtain ⟨m, hm, hmv, hmcancel⟩ := h.served w hw v hv
    show ∃ l, (s.tasks.set t l')[w.task]? = some l ∧ _
    rw [hget]
    by_cases heq : w.task = t
    · rw [heq, hl, Option.some.injEq] at hm
      rw [if_pos heq]
      refine ⟨l', rfl, houtcome v (by rw [hm, hmv]), ?_⟩
      by_contra hreq
      have hnone := (hcancel (by simpa using hreq) (by rw [hm, hmcancel])).2.1
      rw [hm, hmv] at hnone
      cases hnone
    · rw [if_neg heq]
      exact ⟨m, hm, hmv, hmcancel⟩

theorem settle_sharing {s : Registry K V} (h : Sharing s none) (t : Nat) (v : V) :
    Sharing (settle s t v) none := by
  unfold settle
  cases hl : s.tasks[t]? with
  | none => exact h
  | some l =>
    simp only
    split
    · exact h
    · next hpending =>
      have hnone : l.outcome = none := by simpa using hpending
      refine updateTask_sharing h hl rfl ?_ ?_ id
      · intro v' hv'
        rw [hnone] at hv'
        cases hv'
      · intro hreq hold
        rw [show ({ l with outcome := some v } : Lookup K V).cancelRequested = l.cancelRequested
          from rfl, hold] at hreq
        cases hreq

/-- A record may go once its lookup has nobody to count or no callback to
come. -/
theorem erase_sharing {s : Registry K V} {x : Option Nat} (h : Sharing s x) {key : K} {t : Nat}
    {n : Int} (hrec : s.pending.lookup key = some (t, n))
    (hgone : liveOn s t = 0 ∨ ∀ l, s.tasks[t]? = some l → l.finished = true) :
    Sharing { s with pending := s.pending.erase key } x ∧
      ∀ key' n', ({ s with pending := s.pending.erase key } : Registry K V).pending.lookup key' ≠
        some (t, n') := by
  have hlook : ∀ key' r, (s.pending.erase key).lookup key' = some r →
      key' ≠ key ∧ s.pending.lookup key' = some r := by
    intro key' r hr
    rw [Dict.lookup_erase] at hr
    split at hr
    · cases hr
    · next hne => exact ⟨hne, hr⟩
  obtain ⟨l, hl, hlkey, -⟩ := h.known key t n hrec
  constructor
  · refine ⟨?_, ?_, ?_, h.cancelled, h.tasked, h.handed, h.served, h.refused⟩
    · intro key' t' n' hr
      exact h.counts key' t' n' (hlook key' _ hr).2
    · intro key' t' n' hr
      exact h.known key' t' n' (hlook key' _ hr).2
    · intro w hw hlive m hm hfin
      obtain ⟨n', hn'⟩ := h.recorded w hw hlive m hm hfin
      refine ⟨n', ?_⟩
      show (s.pending.erase key).lookup w.key = _
      rw [Dict.lookup_erase, if_neg, hn']
      intro heq
      -- the record under this key is that of `t`, which has no such waiter
      rw [heq, hrec] at hn'
      have htask : t = w.task := by
        have hpair := Option.some.inj hn'
        exact (Prod.mk.inj hpair).1
      rcases hgone with hzero | hdone
      · have hpos : 0 < liveOn s w.task := liveOn_pos hw hlive
        rw [← htask] at hpos
        omega
      · rw [htask] at hdone
        rw [hdone m hm] at hfin
        cases hfin
  · intro key' n' hr
    obtain ⟨hne, hold⟩ := hlook key' _ hr
    have hkey' := h.record_key hl hold
    exact hne (by rw [hkey', hlkey])

theorem requestCancel_sharing {s : Registry K V} {x : Option Nat} (h : Sharing s x) {t : Nat}
    (hzero : liveOn s t = 0) (hno : ∀ key n, s.pending.lookup key ≠ some (t, n)) :
    Sharing (requestCancel s t) x := by
  unfold requestCancel
  cases hl : s.tasks[t]? with
  | none => exact h
  | some l =>
    simp only
    split
    · exact h
    · next hpending =>
      have hnone : l.outcome = none := by simpa using hpending
      exact updateTask_sharing h hl rfl (fun _ hv => hv) (fun _ _ => ⟨hzero, hnone, hno⟩) id

theorem finished_sharing {s : Registry K V} (h : Sharing s none) (t : Nat) :
    Sharing (finished s t) none := by
  unfold finished
  cases hl : s.tasks[t]? with
  | none => exact h
  | some l =>
    simp only
    split
    · exact h
    · -- the callback counts as run before the record goes
      have hmarked : Sharing { s with tasks := s.tasks.set t { l with finished := true } } none := by
        refine updateTask_sharing h hl rfl (fun _ hv => hv) ?_ (fun hfin => by cases hfin)
        intro hreq hold
        change l.cancelRequested = true at hreq
        rw [hold] at hreq
        cases hreq
      cases hrec : s.pending.lookup l.key with
      | none => exact hmarked
      | some r =>
        obtain ⟨task, n⟩ := r
        simp only
        split
        · next heq =>
          rw [heq] at hrec
          refine (erase_sharing hmarked (t := t) hrec (Or.inr ?_)).1
          intro m hm
          change (s.tasks.set t { l with finished := true })[t]? = some m at hm
          rw [getElem?_setTask hl, if_pos rfl, Option.some.injEq] at hm
          rw [← hm]
        · exact hmarked

/-- The record that a request leaves: none of another lookup is touched. -/
theorem leave_sharing {s : Registry K V} {t : Nat} (h : Sharing s (some t)) {l : Lookup K V}
    (hl : s.tasks[t]? = some l) : Sharing (leave s l.key t) none := by
  -- without a record of `t` there is nothing to give back
  have hother : (∀ n, s.pending.lookup l.key ≠ some (t, n)) → Sharing s none := by
    intro hno
    refine ⟨?_, h.known, h.recorded, h.cancelled, h.tasked, h.handed, h.served, h.refused⟩
    intro key t' n hrec
    have hcount := h.counts key t' n hrec
    rw [if_neg] at hcount
    · rw [if_neg (by simp)]
      exact hcount
    · intro heq
      rw [← Option.some.inj heq] at hrec
      rw [h.record_key hl hrec] at hrec
      exact hno n hrec
  unfold leave
  cases hrec : s.pending.lookup l.key with
  | none => exact hother fun n hn => by rw [hrec] at hn; cases hn
  | some r =>
    obtain ⟨t', n⟩ := r
    by_cases heq : t' = t
    · rw [heq] at hrec
      obtain ⟨hcount, hpos⟩ := h.counts l.key t n hrec
      rw [if_pos rfl] at hcount
      simp only [heq, if_true]
      by_cases hlast : n - 1 = 0
      · -- the last waiter: the record goes, and the lookup with it
        rw [if_pos hlast]
        have hzero : liveOn s t = 0 := by omega
        obtain ⟨herased, hno⟩ := erase_sharing h hrec (Or.inl hzero)
        refine requestCancel_sharing ⟨?_, herased.known, herased.recorded, herased.cancelled,
          herased.tasked, herased.handed, herased.served, herased.refused⟩ hzero hno
        intro key t'' n' hr
        have hcount' := herased.counts key t'' n' hr
        rw [if_neg] at hcount'
        · rw [if_neg (by simp)]
          exact hcount'
        · intro heq'
          rw [← Option.some.inj heq'] at hr
          exact hno key n' hr
      · rw [if_neg hlast]
        have hlook : ∀ key r, (s.pending.set l.key (t, n - 1)).lookup key = some r →
            key = l.key ∧ r = (t, n - 1) ∨ key ≠ l.key ∧ s.pending.lookup key = some r := by
          intro key r hr
          rw [Dict.lookup_set] at hr
          split at hr
          · next hkey => exact Or.inl ⟨hkey, (Option.some.inj hr).symm⟩
          · next hkey => exact Or.inr ⟨hkey, hr⟩
        refine ⟨?_, ?_, ?_, h.cancelled, h.tasked, h.handed, h.served, h.refused⟩
        · intro key t'' n' hr
          rw [if_neg (by simp)]
          rcases hlook key _ hr with ⟨-, hpair⟩ | ⟨hkey, hold⟩
          · obtain ⟨ht, hn⟩ := Prod.mk.inj hpair
            rw [ht, hn]
            show n - 1 = (liveOn s t : Int) + 0 ∧ _
            omega
          · have hcount' := h.counts key t'' n' hold
            rw [if_neg] at hcount'
            · exact hcount'
            · intro heq'
              rw [← Option.some.inj heq'] at hold
              exact hkey (h.record_key hl hold)
        · intro key t'' n' hr
          rcases hlook key _ hr with ⟨hkey, hpair⟩ | ⟨-, hold⟩
          · obtain ⟨ht, -⟩ := Prod.mk.inj hpair
            rw [hkey, ht]
            exact h.known l.key t n hrec
          · exact h.known key t'' n' hold
        · intro w hw hlive m hm hfin
          obtain ⟨n', hn'⟩ := h.recorded w hw hlive m hm hfin
          show ∃ n, (s.pending.set l.key (t, _)).lookup w.key = some (w.task, n)
          rw [Dict.lookup_set]
          by_cases hkey : w.key = l.key
          · rw [hkey, hrec] at hn'
            obtain ⟨ht, -⟩ := Prod.mk.inj (Option.some.inj hn')
            rw [if_pos hkey, ht]
            exact ⟨_, rfl⟩
          · rw [if_neg hkey]
            exact ⟨n', hn'⟩
    · simp only [heq, if_false]
      refine hother fun n' hn' => heq ?_
      rw [hrec] at hn'
      exact (Prod.mk.inj (Option.some.inj hn')).1

/-- What a live waiter wakes with is the outcome of its lookup, or its own
cancellation. -/
theorem wakesWith_sound {s : Registry K V} {x : Option Nat} (h : Sharing s x) {w : Waiter K V}
    (hw : w ∈ s.waiters) {r : Received V} (hr : w.wakesWith = some r) :
    (∃ v, r = .outcome v ∧ w.cancelled = false ∧ outcomeOf s w.task = some v) ∨
      r = .cancelledError ∧ w.cancelled = true := by
  unfold Waiter.wakesWith at hr
  split at hr
  · next hc => exact Or.inr ⟨(Option.some.inj hr).symm, hc⟩
  · next hc =>
    obtain ⟨v, hv, hrv⟩ := Option.map_eq_some_iff.mp hr
    exact Or.inl ⟨v, hrv.symm, by simpa using hc, h.handed w hw v hv⟩

theorem resume_sharing {s : Registry K V} (h : Sharing s none) (i : Nat) :
    Sharing (resume s i) none := by
  unfold resume
  cases hw : s.waiters[i]? with
  | none => exact h
  | some w =>
    have hmem : w ∈ s.waiters := List.mem_of_getElem? hw
    cases hlive : w.live with
    | false => simpa [hlive] using h
    | true =>
      cases hr : w.wakesWith with
      | none => simpa [hlive, hr] using h
      | some r =>
        simp only [hlive, hr]
        obtain ⟨l, hl, hlkey⟩ := h.tasked w hmem
        let s' : Registry K V := { s with waiters := s.waiters.set i { w with received := some r } }
        suffices hleaving : Sharing s' (some w.task) by
          have hleft := leave_sharing hleaving hl
          rw [hlkey] at hleft
          exact hleft
        have hcases : ∀ v ∈ s.waiters.set i { w with received := some r },
            v ∈ s.waiters ∨ v = { w with received := some r } :=
          fun v hv => List.mem_or_eq_of_mem_set hv
        -- one live waiter less, and one place to be given back
        have hcount : ∀ t, liveOn s' t + (if some w.task = some t then 1 else 0) = liveOn s t := by
          intro t
          have hset : liveOn s' t + _ = _ := liveOn_setWaiter hw { w with received := some r } t
          rw [hlive] at hset
          have hdead : ({ w with received := some r } : Waiter K V).live = false := rfl
          rw [hdead] at hset
          by_cases ht : w.task = t <;> simp [ht] at hset ⊢ <;> omega
        refine ⟨?_, h.known, ?_, ?_, ?_, ?_, ?_, ?_⟩
        · intro key t n hrec
          obtain ⟨hn, hpos⟩ := h.counts key t n hrec
          have hcount' := hcount t
          rw [if_neg (by simp)] at hn
          refine ⟨?_, hpos⟩
          split
          · next heq =>
            rw [if_pos heq] at hcount'
            omega
          · next heq =>
            rw [if_neg heq] at hcount'
            omega
        · intro v hv hvlive m hm hfin
          rcases hcases v hv with hv | hv
          · exact h.recorded v hv hvlive m hm hfin
          · rw [hv] at hvlive
            cases hvlive
        · intro t m hm hreq
          have hzero := h.cancelled t m hm hreq
          have hcount' := hcount t
          omega
        · intro v hv
          rcases hcases v hv with hv | hv
          · exact h.tasked v hv
          · rw [hv]
            exact h.tasked w hmem
        · intro v hv y hy
          rcases hcases v hv with hv | hv
          · exact h.handed v hv y hy
          · rw [hv] at hy ⊢
            exact h.handed w hmem y hy
        · intro v hv y hy
          rcases hcases v hv with hv | hv
          · exact h.served v hv y hy
          · rw [hv] at hy ⊢
            have hry : r = .outcome y := Option.some.inj hy
            rcases wakesWith_sound h hmem hr with ⟨z, hz, -, hout⟩ | ⟨hz, -⟩
            · rw [hry, Received.outcome.injEq] at hz
              rw [← hz] at hout
              obtain ⟨m, hm, hmout⟩ := Option.bind_eq_some_iff.mp hout
              refine ⟨m, hm, hmout, ?_⟩
              -- nobody cancels a lookup with a live waiter
              by_contra hreq
              have hzero := h.cancelled w.task m hm (by simpa using hreq)
              have hpos := liveOn_pos hmem hlive
              omega
            · rw [hry] at hz
              cases hz
        · intro v hv hy
          rcases hcases v hv with hv | hv
          · exact h.refused v hv hy
          · rw [hv] at hy ⊢
            have hry : r = .cancelledError := Option.some.inj hy
            rcases wakesWith_sound h hmem hr with ⟨z, hz, -⟩ | ⟨-, hcancelled⟩
            · rw [hry] at hz
              cases hz
            · exact hcancelled

omit [DecidableEq K] in
/-- A lookup that does not exist yet has no waiters. -/
theorem liveOn_new [DecidableEq K] {s : Registry K V} {x : Option Nat} (h : Sharing s x) {t : Nat}
    (ht : s.tasks.length ≤ t) : liveOn s t = 0 := by
  refine List.countP_eq_zero.mpr fun w hw hcount => ?_
  obtain ⟨l, hl, -⟩ := h.tasked w hw
  obtain ⟨hlt, -⟩ := List.getElem?_eq_some_iff.mp hl
  have heq : w.task = t := by simpa using And.right (by simpa using hcount)
  omega

omit [DecidableEq K] in
theorem liveOn_append (s : Registry K V) (w : Waiter K V) (p : Dict K (Nat × Int))
    (ts : List (Lookup K V)) (t : Nat) :
    liveOn ⟨p, ts, s.waiters ++ [w]⟩ t = liveOn s t + if w.live && w.task == t then 1 else 0 := by
  show (s.waiters ++ [w]).countP _ = s.waiters.countP _ + _
  rw [List.countP_append, List.countP_singleton]

/-- The first request for a checksum makes a lookup and its record. -/
theorem newLookup_sharing {s : Registry K V} (h : Sharing s none) {key : K}
    (hnone : s.pending.lookup key = none) : Sharing (request s key) none := by
  unfold request
  rw [hnone]
  simp only
  set lookup : Lookup K V :=
    { key := key, cancelRequested := false, outcome := none, finished := false } with hlookup
  set w : Waiter K V :=
    { key := key, task := s.tasks.length, cancelled := false, outer := none, received := none } with hw
  have hnew : liveOn s s.tasks.length = 0 := liveOn_new h le_rfl
  have hcount : ∀ t, liveOn ⟨s.pending.set key (s.tasks.length, 1), s.tasks ++ [lookup],
      s.waiters ++ [w]⟩ t = liveOn s t + if s.tasks.length = t then 1 else 0 := by
    intro t
    rw [liveOn_append]
    by_cases ht : s.tasks.length = t <;> simp [hw, Waiter.live, ht]
  -- the old tasks keep their places, and the new one is the last
  have hget : ∀ (t : Nat) (l : Lookup K V), s.tasks[t]? = some l →
      (s.tasks ++ [lookup])[t]? = some l := by
    intro t l hl
    rw [List.getElem?_append_left (List.getElem?_eq_some_iff.mp hl).1, hl]
  have hget' : ∀ (t : Nat) (l : Lookup K V), (s.tasks ++ [lookup])[t]? = some l →
      s.tasks[t]? = some l ∨ t = s.tasks.length ∧ l = lookup := by
    intro t l hl
    rcases lt_or_ge t s.tasks.length with hlt | hge
    · rw [List.getElem?_append_left hlt] at hl
      exact Or.inl hl
    · rw [List.getElem?_append_right hge] at hl
      obtain ⟨hlt, hval⟩ := List.getElem?_eq_some_iff.mp hl
      have hzero : t = s.tasks.length := by
        simp only [List.length_singleton] at hlt
        omega
      refine Or.inr ⟨hzero, ?_⟩
      rw [← hval]
      simp
  have hlast : (s.tasks ++ [lookup])[s.tasks.length]? = some lookup := by simp
  have hmem : ∀ v ∈ s.waiters ++ [w], v ∈ s.waiters ∨ v = w := by
    intro v hv
    simpa using hv
  refine ⟨?_, ?_, ?_, ?_, ?_, ?_, ?_, ?_⟩
  · -- one case for each field: the new record has one waiter, the others are as before
    intro key' t n hrec
    change (s.pending.set key (s.tasks.length, 1)).lookup key' = some (t, n) at hrec
    rw [Dict.lookup_set] at hrec
    have hstays : (if (none : Option Nat) = some t then (1 : Int) else 0) = 0 := if_neg (by simp)
    rw [hcount, hstays]
    split at hrec
    · obtain ⟨ht, hn⟩ := Prod.mk.inj (Option.some.inj hrec)
      rw [← ht, ← hn, hnew, if_pos rfl]
      exact ⟨rfl, by decide⟩
    · obtain ⟨hn, hpos⟩ := h.counts key' t n hrec
      obtain ⟨l, hl, -⟩ := h.known key' t n hrec
      have hne : s.tasks.length ≠ t := ne_of_gt (List.getElem?_eq_some_iff.mp hl).1
      rw [if_neg hne]
      rw [hstays] at hn
      exact ⟨hn, hpos⟩
  · intro key' t n hrec
    change (s.pending.set key (s.tasks.length, 1)).lookup key' = some (t, n) at hrec
    rw [Dict.lookup_set] at hrec
    split at hrec
    · next hkey =>
      obtain ⟨ht, -⟩ := Prod.mk.inj (Option.some.inj hrec)
      rw [← ht]
      exact ⟨lookup, hlast, hkey.symm, rfl⟩
    · obtain ⟨l, hl, hlkey⟩ := h.known key' t n hrec
      exact ⟨l, hget t l hl, hlkey⟩
  · intro v hv hlive l hl hfin
    show ∃ n, (s.pending.set key (s.tasks.length, 1)).lookup v.key = some (v.task, n)
    rw [Dict.lookup_set]
    rcases hmem v hv with hv | hv
    · obtain ⟨m, hm, -⟩ := h.tasked v hv
      have hm' := hget _ _ hm
      change (s.tasks ++ [lookup])[v.task]? = some l at hl
      rw [hm', Option.some.injEq] at hl
      obtain ⟨n, hn⟩ := h.recorded v hv hlive l (hl ▸ hm) hfin
      have hne : v.key ≠ key := by
        intro heq
        rw [heq, hnone] at hn
        cases hn
      rw [if_neg hne]
      exact ⟨n, hn⟩
    · rw [hv]
      exact ⟨1, by rw [if_pos rfl]⟩
  · intro t l hl hreq
    rw [hcount]
    rcases hget' t l hl with hl | ⟨-, hl⟩
    · have hne : s.tasks.length ≠ t := ne_of_gt (List.getElem?_eq_some_iff.mp hl).1
      rw [if_neg hne, h.cancelled t l hl hreq]
    · rw [hl] at hreq
      cases hreq
  · intro v hv
    rcases hmem v hv with hv | hv
    · obtain ⟨l, hl, hlkey⟩ := h.tasked v hv
      exact ⟨l, hget _ l hl, hlkey⟩
    · rw [hv]
      exact ⟨lookup, hlast, rfl⟩
  · intro v hv y hy
    rcases hmem v hv with hv | hv
    · obtain ⟨l, hl, hlout⟩ := Option.bind_eq_some_iff.mp (h.handed v hv y hy)
      exact Option.bind_eq_some_iff.mpr ⟨l, hget _ l hl, hlout⟩
    · rw [hv] at hy
      cases hy
  · intro v hv y hy
    rcases hmem v hv with hv | hv
    · obtain ⟨l, hl, hlout⟩ := h.served v hv y hy
      exact ⟨l, hget _ l hl, hlout⟩
    · rw [hv] at hy
      cases hy
  · intro v hv hy
    rcases hmem v hv with hv | hv
    · exact h.refused v hv hy
    · rw [hv] at hy
      cases hy

/-- A further request joins the lookup of the record; where the lookup is done
already it is served at once and gives its place back. -/
theorem joinLookup_sharing {s : Registry K V} (h : Sharing s none) {key : K} {t : Nat} {n : Int}
    (hrec : s.pending.lookup key = some (t, n)) : Sharing (request s key) none := by
  obtain ⟨l, hl, hlkey, hlcancel⟩ := h.known key t n hrec
  unfold request
  rw [hrec]
  simp only
  set w : Waiter K V := shielded s key t with hw
  have hreceived : w.received = l.outcome.map Received.outcome := by
    rw [hw]
    unfold shielded
    rw [hl]
  set s' : Registry K V :=
    { s with pending := s.pending.set key (t, n + 1), waiters := s.waiters ++ [w] } with hs'
  have hcount : ∀ t', liveOn s' t' = liveOn s t' + if w.live && t == t' then 1 else 0 :=
    fun t' => liveOn_append s w _ _ t'
  have hmem : ∀ v ∈ s.waiters ++ [w], v ∈ s.waiters ∨ v = w := by
    intro v hv
    simpa using hv
  -- a request that is served at once still holds its place
  suffices hjoined : Sharing s' (if w.live then none else some t) by
    by_cases hlive : w.live = true
    · rw [if_pos hlive] at hjoined ⊢
      exact hjoined
    · rw [if_neg hlive] at hjoined ⊢
      have hleft := leave_sharing hjoined hl
      rw [hlkey] at hleft
      exact hleft
  refine ⟨?_, ?_, ?_, ?_, ?_, ?_, ?_, ?_⟩
  · intro key' t' n' hr
    change (s.pending.set key (t, n + 1)).lookup key' = some (t', n') at hr
    rw [Dict.lookup_set] at hr
    rw [hcount]
    split at hr
    · obtain ⟨ht, hn⟩ := Prod.mk.inj (Option.some.inj hr)
      obtain ⟨hcounts, hpos⟩ := h.counts key t n hrec
      rw [if_neg (by simp)] at hcounts
      rw [← ht, ← hn]
      cases hlive : w.live <;> simp <;> omega
    · next hne =>
      obtain ⟨hcounts, hpos⟩ := h.counts key' t' n' hr
      rw [if_neg (by simp)] at hcounts
      have hdiff : t ≠ t' := by
        intro heq
        rw [← heq] at hr
        exact hne (by rw [h.record_key hl hr, hlkey])
      cases hlive : w.live <;> simp [hdiff] <;> omega
  · intro key' t' n' hr
    change (s.pending.set key (t, n + 1)).lookup key' = some (t', n') at hr
    rw [Dict.lookup_set] at hr
    split at hr
    · next hkey =>
      obtain ⟨ht, -⟩ := Prod.mk.inj (Option.some.inj hr)
      rw [← ht, hkey]
      exact ⟨l, hl, hlkey, hlcancel⟩
    · exact h.known key' t' n' hr
  · intro v hv hlive m hm hfin
    show ∃ n', (s.pending.set key (t, n + 1)).lookup v.key = some (v.task, n')
    rw [Dict.lookup_set]
    rcases hmem v hv with hv | hv
    · obtain ⟨n', hn'⟩ := h.recorded v hv hlive m hm hfin
      by_cases hkey : v.key = key
      · rw [hkey, hrec] at hn'
        rw [if_pos hkey, (Prod.mk.inj (Option.some.inj hn')).1]
        exact ⟨_, rfl⟩
      · rw [if_neg hkey]
        exact ⟨n', hn'⟩
    · rw [hv]
      have hkey : w.key = key := rfl
      exact ⟨n + 1, by rw [if_pos hkey]; rfl⟩
  · intro t' m hm hreq
    rw [hcount, h.cancelled t' m hm hreq]
    have hdiff : t ≠ t' := by
      intro heq
      rw [← heq, show s'.tasks = s.tasks from rfl, hl, Option.some.injEq] at hm
      rw [← hm, hlcancel] at hreq
      cases hreq
    simp [hdiff]
  · intro v hv
    rcases hmem v hv with hv | hv
    · exact h.tasked v hv
    · rw [hv]
      exact ⟨l, hl, hlkey⟩
  · intro v hv y hy
    rcases hmem v hv with hv | hv
    · exact h.handed v hv y hy
    · rw [hv] at hy
      cases hy
  · intro v hv y hy
    rcases hmem v hv with hv | hv
    · exact h.served v hv y hy
    · rw [hv, hreceived] at hy
      rw [hv]
      obtain ⟨z, hz, hzy⟩ := Option.map_eq_some_iff.mp hy
      rw [Received.outcome.injEq] at hzy
      exact ⟨l, hl, by rw [hz, hzy], hlcancel⟩
  · intro v hv hy
    rcases hmem v hv with hv | hv
    · exact h.refused v hv hy
    · rw [hv, hreceived] at hy
      obtain ⟨z, -, hzy⟩ := Option.map_eq_some_iff.mp hy
      cases hzy

/-- Every event keeps the invariant. -/
theorem step_sharing {s : Registry K V} (h : Sharing s none) (e : Event K V) :
    Sharing (step s e).1 none := by
  cases e with
  | request key sources =>
    cases sources with
    | false => exact h
    | true =>
      show Sharing (request s key) none
      cases hrec : s.pending.lookup key with
      | none => exact newLookup_sharing h hrec
      | some r => exact joinLookup_sharing h hrec
  | settle t v => exact settle_sharing h t v
  | finished t => exact finished_sharing h t
  | deliver w => exact deliver_sharing h w
  | cancel w => exact cancel_sharing h w
  | resume w => exact resume_sharing h w

theorem after_sharing (events : List (Event K V)) : Sharing (after events) none :=
  Run.exec_invariant step (fun s => Sharing s none) (fun _ e h => step_sharing h e)
    sharing_initial events

/-! ## §4. All runs. -/

/-- The completion callback of a lookup leaves the records of others alone. -/
theorem finished_other (s : Registry K V) (t : Nat) {key : K} {t' : Nat} {n : Int}
    (hrec : s.pending.lookup key = some (t', n)) (hne : t' ≠ t) :
    (finished s t).pending.lookup key = some (t', n) := by
  unfold finished
  cases hl : s.tasks[t]? with
  | none => exact hrec
  | some l =>
    simp only
    split
    · exact hrec
    · cases hown : s.pending.lookup l.key with
      | none => exact hrec
      | some r =>
        obtain ⟨task, m⟩ := r
        simp only
        split
        · next heq =>
          show (s.pending.erase l.key).lookup key = _
          rw [Dict.lookup_erase, if_neg, hrec]
          intro hkey
          -- under its own key the callback found its own record
          rw [hkey, hown] at hrec
          exact hne (by rw [← (Prod.mk.inj (Option.some.inj hrec)).1, heq])
        · exact hrec

omit [DecidableEq K] in
theorem requestCancel_waiters (s : Registry K V) (t : Nat) :
    (requestCancel s t).waiters = s.waiters := by
  unfold requestCancel
  split
  · rfl
  · split <;> rfl

theorem leave_waiters (s : Registry K V) (key : K) (t : Nat) :
    (leave s key t).waiters = s.waiters := by
  unfold leave
  split
  · rfl
  · split
    · simp only
      split
      · exact requestCancel_waiters _ t
      · rfl
    · rfl

/-- A waiter that nobody cancelled gets the outcome of its lookup once there
is one. -/
theorem served_next {s : Registry K V} (h : Sharing s none) {i : Nat} {w : Waiter K V}
    (hw : s.waiters[i]? = some w) (hlive : w.live = true) (hkept : w.cancelled = false) {v : V}
    (hv : outcomeOf s w.task = some v) :
    ∃ w', (resume (deliver s i) i).waiters[i]? = some w' ∧ w'.received = some (.outcome v) := by
  obtain ⟨hi, -⟩ := List.getElem?_eq_some_iff.mp hw
  -- the shield has the outcome, before or after the delivery
  have hdelivered : ∃ w', (deliver s i).waiters[i]? = some w' ∧ w'.live = true ∧
      w'.cancelled = false ∧ w'.outer = some v := by
    unfold deliver
    rw [hw]
    cases houter : w.outer with
    | some y =>
      have hy := h.handed w (List.mem_of_getElem? hw) y houter
      rw [hv, Option.some.injEq] at hy
      refine ⟨w, ?_, hlive, hkept, by rw [houter, hy]⟩
      simp [hlive, hkept, houter, hw]
    | none =>
      refine ⟨{ w with outer := outcomeOf s w.task }, ?_, hlive, hkept, hv⟩
      simp [hlive, hkept, houter, hi]
  obtain ⟨w', hw', hlive', hkept', houter'⟩ := hdelivered
  have hwakes : w'.wakesWith = some (.outcome v) := by
    unfold Waiter.wakesWith
    simp [hkept', houter']
  obtain ⟨hi', -⟩ := List.getElem?_eq_some_iff.mp hw'
  refine ⟨{ w' with received := some (.outcome v) }, ?_, rfl⟩
  unfold resume
  rw [hw']
  simp only [hlive', hwakes]
  rw [leave_waiters, List.getElem?_set_self hi']

/-- Shared lookups, after any events: a record counts the live waiters of its
lookup, all of them as long as the callback is to come; a lookup is cancelled
only where no live waiter remains; a request that nobody cancelled ends with
the outcome of its lookup, which was not cancelled, and does so once there is
one; and no completion callback removes the record of another lookup. -/
theorem sharedLookups (events : List (Event K V)) :
    (∀ key t n, (after events).pending.lookup key = some (t, n) →
      n = liveOn (after events) t ∧ 0 < n) ∧
    (∀ w ∈ (after events).waiters, w.live = true → ∀ l, (after events).tasks[w.task]? = some l →
      l.finished = false → ∃ n, (after events).pending.lookup w.key = some (w.task, n)) ∧
    (∀ t l, (after events).tasks[t]? = some l → l.cancelRequested = true →
      liveOn (after events) t = 0) ∧
    (∀ w ∈ (after events).waiters, w.cancelled = false → ∀ r, w.received = some r →
      ∃ v l, r = .outcome v ∧ (after events).tasks[w.task]? = some l ∧ l.outcome = some v ∧
        l.cancelRequested = false) ∧
    (∀ i w v, (after events).waiters[i]? = some w → w.live = true → w.cancelled = false →
      outcomeOf (after events) w.task = some v →
        ∃ w', (after (events ++ [.deliver i, .resume i])).waiters[i]? = some w' ∧
          w'.received = some (.outcome v)) ∧
    ∀ t key t' n, (after events).pending.lookup key = some (t', n) → t' ≠ t →
      (after (events ++ [.finished t])).pending.lookup key = some (t', n) := by
  have h := after_sharing events
  -- between two events no waiter is on its way out, so the counts are exact
  have hcounts : ∀ key t n, (after events).pending.lookup key = some (t, n) →
      n = liveOn (after events) t ∧ 0 < n := by
    intro key t n hrec
    obtain ⟨hn, hpos⟩ := h.counts key t n hrec
    rw [if_neg (by simp)] at hn
    exact ⟨by omega, hpos⟩
  refine ⟨hcounts, h.recorded, h.cancelled, ?_, ?_, ?_⟩
  · intro w hw hkept r hr
    cases r with
    | outcome v =>
      obtain ⟨l, hl, hlv, hlc⟩ := h.served w hw v hr
      exact ⟨v, l, rfl, hl, hlv, hlc⟩
    | cancelledError =>
      rw [h.refused w hw hr] at hkept
      cases hkept
  · intro i w v hw hlive hkept hv
    unfold after
    rw [Run.exec_append]
    exact served_next h hw hlive hkept hv
  · intro t key t' n hrec hne
    unfold after
    rw [Run.exec_append]
    exact finished_other _ t hrec hne

end SeamlessCore.BufferSource
