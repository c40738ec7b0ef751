/-
  SeamlessCore.Expression.Shared — calls that share one evaluation.

  Calls for one expression key meet in a record (`_ActiveExpression`): its
  members, the waiter of each member, the future of the shared result, and
  the task that does the work (a synchronous owner has none).  When the last
  member leaves, the record lingers before its task is cancelled.

  The machine below interleaves, at the granularity of the lock and of the
  event loop's callbacks, everything that can happen to such calls: joins,
  cancellation of the task that awaits, softcancels, queued callbacks, timers
  and the completion of the work.  Time is not modelled: a timer may fire at
  any point after it was set and before it is cancelled.

  Source: `seamless/checksum/expression.py` (`evaluate_expression_local`,
  `evaluate_expression_local_async`, `_run_active_remote`, `_join_expression`,
  `softcancel_expression`, `_discard_active_expression`).
-/
import SeamlessCore.Lib.Run

namespace SeamlessCore.Expression

/-! ## §1. Records and calls. -/

/-- How a future ended: with the work's result, with the work's exception, or
with a `CancelledError`. -/
inductive Verdict where
  | result
  | error
  | cancelled
  deriving DecidableEq, Repr

/-- The task of an asynchronous evaluation. -/
inductive TaskState where
  | running
  | cancelRequested
  | done
  deriving DecidableEq, Repr

/-- `_ActiveExpression`, with the callbacks and timers of its event loop. -/
structure ActiveExpression (Member : Type) where
  members : Finset Member
  /-- The waiter of each member, named by the call that waits on it. -/
  waiters : Member → Option Nat
  /-- `none` is a synchronous owner. -/
  task : Option TaskState
  resultFuture : Option Verdict
  /-- The calls whose waiters are told when `resultFuture` is done. -/
  callbacks : List Nat
  linger : Option Nat
  /-- The timers that run, and the number of timers set so far. -/
  timers : List Nat
  timerCount : Nat
  /-- The `schedule` callbacks that are queued. -/
  schedules : Nat

/-- Whether a call awaits a waiter, blocks on the shared future, or does the
work itself. -/
inductive CallKind where
  | awaits
  | blocks
  | owns
  deriving DecidableEq, Repr

/-- A call that evaluates the key. -/
structure Call (Member : Type) where
  member : Member
  record : Nat
  kind : CallKind
  waiter : Option Verdict
  /-- `waiter.cancel` is queued. -/
  cancelQueued : Bool
  /-- Somebody cancelled or softcancelled this very call. -/
  targeted : Bool
  ended : Option Verdict

/-- `_active_expressions` and `_lingering_expressions` at the key, and all
records and calls so far. -/
structure Registry (Member : Type) where
  records : Nat → ActiveExpression Member
  recordCount : Nat
  active : Option Nat
  lingering : Option Nat
  calls : Nat → Call Member
  callCount : Nat

variable {Member : Type} [DecidableEq Member]

namespace Registry

/-- A new record. -/
def newRecord (task : Option TaskState) : ActiveExpression Member where
  members := ∅
  waiters _ := none
  task := task
  resultFuture := none
  callbacks := []
  linger := none
  timers := []
  timerCount := 0
  schedules := 0

/-- No record and no call yet; `m` fills the unused places. -/
def initial (m : Member) : Registry Member where
  records _ := newRecord none
  recordCount := 0
  active := none
  lingering := none
  calls _ := ⟨m, 0, .owns, none, false, false, none⟩
  callCount := 0

/-- An update of one record. -/
def updateRecord (s : Registry Member) (r : Nat)
    (f : ActiveExpression Member → ActiveExpression Member) : Registry Member :=
  { s with records := Function.update s.records r (f (s.records r)) }

/-- An update of one call. -/
def updateCall (s : Registry Member) (c : Nat) (f : Call Member → Call Member) :
    Registry Member :=
  { s with calls := Function.update s.calls c (f (s.calls c)) }

/-- One more call. -/
def addCall (s : Registry Member) (call : Call Member) : Registry Member :=
  { s with calls := Function.update s.calls s.callCount call, callCount := s.callCount + 1 }

/-! ## §2. Joining. -/

/-- `active = _ActiveExpression(…)`, filed under the key -/
def createRecord (s : Registry Member) (task : Option TaskState) : Registry Member :=
  { s with
    records := Function.update s.records s.recordCount (newRecord task)
    recordCount := s.recordCount + 1
    active := some s.recordCount }

/-- `_active_expressions.get(key) or _lingering_expressions.pop(key, None)` -/
def findRecord (s : Registry Member) : Option Nat × Registry Member :=
  match s.active with
  | some r => (some r, s)
  | none => (s.lingering, { s with lingering := none })

/-- The record a call evaluates with: the one it finds, unless its future is
done; else a new one.  The flag says that it is new. -/
def obtain (s : Registry Member) (task : Option TaskState) : Nat × Bool × Registry Member :=
  match s.findRecord with
  | (none, s) => (s.recordCount, true, s.createRecord task)
  | (some r, s) =>
    if (s.records r).resultFuture.isSome then (s.recordCount, true, s.createRecord task)
    else (r, false, { s with active := some r })

/-- `active.linger.cancel()` -/
def cancelLinger (a : ActiveExpression Member) : ActiveExpression Member :=
  match a.linger with
  | none => a
  | some h => { a with timers := a.timers.erase h }

/-- `_join_expression(active, member)`, for the call `c` -/
def joinExpression (s : Registry Member) (r : Nat) (m : Member) (c : Nat) : Registry Member :=
  s.updateRecord r fun a =>
    { cancelLinger a with
      linger := none
      members := insert m a.members
      callbacks := a.callbacks ++ [c]
      waiters := Function.update a.waiters m (some c) }

/-- The call's part of `evaluate_expression_local_async` and
`_run_active_remote` up to its wait. -/
def joinAsync (s : Registry Member) (m : Member) : Registry Member :=
  let (r, _, s) := s.obtain (some .running)
  let c := s.callCount
  let s := s.joinExpression r m c
  s.addCall ⟨m, r, .awaits, none, false, false, none⟩

/-! ## §3. Leaving. -/

/-- `waiter.get_loop().call_soon_threadsafe(waiter.cancel)` -/
def queueCancel (s : Registry Member) : Option Nat → Registry Member
  | none => s
  | some c => s.updateCall c fun call => { call with cancelQueued := true }

/-- The member leaves the record, and `waiter.cancel` is queued. -/
def removeMember (s : Registry Member) (r : Nat) (m : Member) : Registry Member :=
  (s.updateRecord r fun a =>
    { a with members := a.members.erase m, waiters := Function.update a.waiters m none }).queueCancel
    ((s.records r).waiters m)

/-- `softcancel_expression(cache_key, member_id)` -/
def softcancel (s : Registry Member) (m : Member) : Registry Member × Bool :=
  match s.active with
  | none => (s, false)
  | some r =>
    let a := s.records r
    if m ∉ a.members ∨ a.resultFuture.isSome then (s, false)
    else
      let s := s.removeMember r m
      if (s.records r).members = ∅ then
        if a.task.isNone then (s, true)
        else
          let s := { s with active := none, lingering := some r }
          (s.updateRecord r fun a => { a with schedules := a.schedules + 1 }, true)
      else (s, true)

/-- The end of a call: its outcome, and the softcancel of its `finally`. -/
def endCall (s : Registry Member) (c : Nat) (v : Verdict) : Registry Member :=
  ((s.updateCall c fun call => { call with ended := some v }).softcancel (s.calls c).member).1

/-- The call's part of `evaluate_expression_local` up to its wait.  On the
loop of the evaluator's task (`sameLoop`) a call leaves again at once and
evaluates alone; without a record to join, it owns the evaluation. -/
def joinSync (s : Registry Member) (m : Member) (sameLoop : Bool) : Registry Member :=
  let (r, created, s) := s.obtain none
  let s := s.updateRecord r fun a => { a with members := insert m a.members }
  if created then s.addCall ⟨m, r, .owns, none, false, false, none⟩
  else if sameLoop && (s.records r).task.isSome then (s.softcancel m).1
  else s.addCall ⟨m, r, .blocks, none, false, false, none⟩

/-! ## §4. Callbacks, timers and completion. -/

/-- The `schedule` callback of a softcancel. -/
def schedule (s : Registry Member) (r : Nat) : Registry Member :=
  let a := s.records r
  if a.schedules = 0 then s
  else if a.members = ∅ ∧ a.resultFuture = none then
    s.updateRecord r fun a =>
      { a with
        schedules := a.schedules - 1
        linger := some a.timerCount
        timers := a.timers ++ [a.timerCount]
        timerCount := a.timerCount + 1 }
  else s.updateRecord r fun a => { a with schedules := a.schedules - 1 }

/-- `active.task.cancel()` -/
def requestCancel (a : ActiveExpression Member) : ActiveExpression Member :=
  if a.task = some .running then { a with task := some .cancelRequested } else a

/-- The timer `h` of a record fires: its `expire`. -/
def expire (s : Registry Member) (r h : Nat) : Registry Member :=
  if h ∉ (s.records r).timers then s
  else
    let s := s.updateRecord r fun a => { a with timers := a.timers.erase h }
    if s.lingering ≠ some r then s
    else
      let s := { s with lingering := none }
      if (s.records r).members = ∅ ∧ (s.records r).task.isSome then
        s.updateRecord r requestCancel
      else s

/-- `if not active.result_future.done(): active.result_future.set_…` -/
def settle (a : ActiveExpression Member) (v : Verdict) : ActiveExpression Member :=
  if a.resultFuture.isSome then a else { a with resultFuture := some v }

/-- `if _active_expressions.get(key) is active: _active_expressions.pop(key)` -/
def popActive (s : Registry Member) (r : Nat) : Registry Member :=
  if s.active = some r then { s with active := none } else s

/-- `if _lingering_expressions.get(key) is active: …pop(key)` -/
def popLingering (s : Registry Member) (r : Nat) : Registry Member :=
  if s.lingering = some r then { s with lingering := none } else s

/-- The `finally` of the synchronous owner `c`, which ends with `v`. -/
def finishOwner (s : Registry Member) (c : Nat) (v : Verdict) : Registry Member :=
  let r := (s.calls c).record
  let s := (s.popActive r).popLingering r
  let s := s.updateRecord r cancelLinger
  s.updateCall c fun call => { call with ended := some v }

/-- The `finally` of a task, which ends. -/
def finishTask (s : Registry Member) (r : Nat) : Registry Member :=
  (s.updateRecord r fun a => { a with task := some .done }).popActive r

/-- `_discard_active_expression`, the callback of the finished task -/
def discardActive (s : Registry Member) (r : Nat) : Registry Member :=
  let s := (s.popActive r).popLingering r
  let s := s.updateRecord r cancelLinger
  s.updateRecord r fun a => settle a .cancelled

/-! ## §5. The machine. -/

/-- What can happen. -/
inductive Event (Member : Type) where
  | joinAsync (m : Member)
  | joinSync (m : Member) (sameLoop : Bool)
  /-- The asyncio task of the waiting call `c` is cancelled. -/
  | cancelCall (c : Nat)
  /-- `softcancel_expression` from outside, as `Expression.softcancel` does it. -/
  | softcancel (m : Member)
  | deliverCancel (c : Nat)
  | deliverResult (c : Nat)
  | resume (c : Nat)
  | schedule (r : Nat)
  | expire (r h : Nat)
  /-- The work of a synchronous owner is done; `failed` with an exception. -/
  | settleOwner (c : Nat) (failed : Bool)
  | finishOwner (c : Nat)
  /-- The work of a task is done, before a cancellation reaches it. -/
  | settleTask (r : Nat) (failed : Bool)
  /-- A requested cancellation reaches the work of the task. -/
  | cancelTask (r : Nat)
  | finishTask (r : Nat)
  /-- A task is cancelled before its first step. -/
  | dropTask (r : Nat)
  | discard (r : Nat)

/-- The verdict of the work itself. -/
def workVerdict (failed : Bool) : Verdict := if failed then .error else .result

/-- A call that has not returned. -/
def Unfinished (s : Registry Member) (c : Nat) : Prop :=
  c < s.callCount ∧ (s.calls c).ended = none

instance (s : Registry Member) (c : Nat) : Decidable (Unfinished s c) :=
  inferInstanceAs (Decidable (_ ∧ _))

/-- The unfinished calls of a member are the ones that a softcancel means. -/
def target (s : Registry Member) (m : Member) : Registry Member :=
  { s with calls := fun c =>
      if Unfinished s c ∧ (s.calls c).member = m then { s.calls c with targeted := true }
      else s.calls c }

/-- One event; an event that cannot happen changes nothing. -/
def stepEvent (s : Registry Member) : Event Member → Registry Member
  | .joinAsync m => s.joinAsync m
  | .joinSync m sameLoop => s.joinSync m sameLoop
  | .cancelCall c =>
    if Unfinished s c ∧ (s.calls c).kind = .awaits then
      (s.updateCall c fun call => { call with targeted := true }).endCall c .cancelled
    else s
  | .softcancel m => ((s.target m).softcancel m).1
  | .deliverCancel c =>
    if (s.calls c).cancelQueued then
      s.updateCall c fun call =>
        { call with
          cancelQueued := false
          waiter := if call.waiter.isSome then call.waiter else some .cancelled }
    else s
  | .deliverResult c =>
    match (s.records (s.calls c).record).resultFuture with
    | none => s
    | some v =>
      if c ∈ (s.records (s.calls c).record).callbacks ∧ (s.calls c).waiter = none then
        s.updateCall c fun call => { call with waiter := some v }
      else s
  | .resume c =>
    if Unfinished s c then
      match (s.calls c).kind with
      | .owns => s
      | .awaits =>
        match (s.calls c).waiter with
        | none => s
        | some v => s.endCall c v
      | .blocks =>
        match (s.records (s.calls c).record).resultFuture with
        | none => s
        | some v => s.endCall c v
    else s
  | .schedule r => s.schedule r
  | .expire r h => s.expire r h
  | .settleOwner c failed =>
    if Unfinished s c ∧ (s.calls c).kind = .owns then
      s.updateRecord (s.calls c).record fun a => settle a (workVerdict failed)
    else s
  | .finishOwner c =>
    match (s.records (s.calls c).record).resultFuture with
    | none => s
    | some v => if Unfinished s c ∧ (s.calls c).kind = .owns then s.finishOwner c v else s
  | .settleTask r failed =>
    if (s.records r).task = some .running ∨ (s.records r).task = some .cancelRequested then
      s.updateRecord r fun a => settle a (workVerdict failed)
    else s
  | .cancelTask r =>
    if (s.records r).task = some .cancelRequested then
      s.updateRecord r fun a => settle a .cancelled
    else s
  | .finishTask r =>
    if ((s.records r).task = some .running ∨ (s.records r).task = some .cancelRequested) ∧
        (s.records r).resultFuture.isSome then
      s.finishTask r
    else s
  | .dropTask r =>
    if (s.records r).task = some .cancelRequested ∧ (s.records r).resultFuture = none then
      s.updateRecord r fun a => { a with task := some .done }
    else s
  | .discard r => if (s.records r).task = some .done then s.discardActive r else s

/-- The machine, without outputs. -/
def step (s : Registry Member) (e : Event Member) : Registry Member × Unit := (s.stepEvent e, ())

end Registry

end SeamlessCore.Expression
