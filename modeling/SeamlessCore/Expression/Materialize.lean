/-
  SeamlessCore.Expression.Materialize — requests for the bytes of a result.

  A materializing request is to be answered with a checksum whose buffer this
  process can obtain.  Requests enter by `evaluate_expression_placed`,
  `evaluate_expression_local` or `evaluate_expression_local_async`; they are
  answered from the cache, from the database, by an evaluation of their own,
  or by an evaluation or a dispatch that they share.

  The machine below runs any number of requests in any order.  A step goes
  from one `await` to the next.  Whatever else happens in between is a step of
  the world: buffers come, and cache, database and stored words change.  An
  exception may end any request and any shared work.

  Main definitions:
    * `World` — where buffers are found, and the expression cache;
    * `System.step` — the steps of requests and of shared work.

  Source: `seamless/checksum/expression.py`.
-/
import SeamlessCore.Expression.Evaluate
import SeamlessCore.Lib.Run

namespace SeamlessCore.Expression

open Python Libraries ExpressionCelltype

/-! ## §1. Buffers within reach. -/

/-- Buffers by their checksum -/
structure Buffers (L : Libraries) where
  find : Checksum → Option Bytes
  addressed : ∀ c b, find c = some b → L.sha256 b = c

namespace Buffers

variable {L : Libraries}

def empty : Buffers L := ⟨fun _ => none, fun _ _ h => by cases h⟩

/-- The buffers with one more -/
def put (s : Buffers L) (b : Bytes) : Buffers L where
  find := Function.update s.find (L.sha256 b) (some b)
  addressed c b' h := by
    by_cases hc : c = L.sha256 b
    · subst hc
      rw [Function.update_self] at h
      rw [Option.some.inj h]
    · rw [Function.update_of_ne hc] at h
      exact s.addressed c b' h

@[simp] theorem find_put_self (s : Buffers L) (b : Bytes) :
    (s.put b).find (L.sha256 b) = some b := Function.update_self _ _ _

theorem isSome_put {s : Buffers L} {c : Checksum} (h : (s.find c).isSome = true) (b : Bytes) :
    ((s.put b).find c).isSome = true := by
  by_cases hc : c = L.sha256 b
  · subst hc
    rw [find_put_self]
    rfl
  · show (Function.update s.find (L.sha256 b) (some b) c).isSome = true
    rw [Function.update_of_ne hc]
    exact h

end Buffers

/-- What the requests of a process share. -/
structure World (L : Libraries) where
  /-- Trivial buffers, the buffer cache, expression results, the checksum cache. -/
  memory : Buffers L
  /-- What the registered sources give. -/
  sources : Buffers L
  hashserver : Buffers L
  /-- `has_buffer_source(checksum)`, from metadata -/
  hasSource : Checksum → Bool
  /-- `get_buffer_lengths([checksum])` answers with a length or with `True`. -/
  hasLength : Checksum → Bool
  /-- `_expression_cache` -/
  cache : ExpressionKey → Option Checksum
  /-- `get_expression_result` of the database -/
  rows : ExpressionKey → Option Checksum
  known : Knowledge

namespace World

variable {L : Libraries} (w : World L)

/-- `_get_local_buffer(checksum)` -/
def localBuffer (c : Checksum) : Option Bytes := (w.memory.find c).or (w.sources.find c)

/-- `checksum.resolution()` -/
def resolution (c : Checksum) : Option Bytes := (w.localBuffer c).or (w.hashserver.find c)

/-- The process can obtain the buffer. -/
def Obtainable (c : Checksum) : Prop :=
  (w.memory.find c).isSome = true ∨ (w.sources.find c).isSome = true ∨
    (w.hashserver.find c).isSome = true

/-- A source that is said to have a buffer gives it, and so does the hashserver
with a buffer of which it knows the length. -/
structure Truthful : Prop where
  ofSource : ∀ c, w.hasSource c = true → (w.sources.find c).isSome = true
  ofLength : ∀ c, w.hasLength c = true → (w.hashserver.find c).isSome = true

/-- `_has_local_buffer(checksum)` -/
def hasLocalBuffer (c : Checksum) : Bool := (w.memory.find c).isSome || w.hasSource c

/-- What `_result_reachable` gets to see: whether the buffer was local when it
looked, and whether the hashserver answered. -/
structure Seen where
  locally : Bool
  asked : Bool

/-- `_result_reachable(checksum)` -/
def resultReachable (o : Seen) (c : Checksum) : Bool :=
  (o.locally && w.hasLocalBuffer c) || (o.asked && w.hasLength c)

/-- `_insert_expression_result(cache_key, result)` -/
def insertResult (key : ExpressionKey) (c : Checksum) : World L :=
  match w.cache key with
  | none => { w with cache := Function.update w.cache key (some c) }
  -- a known mapping is not overwritten
  | some _ => w

/-- `_expression_result_buffers` and `tempref` of a new buffer -/
def holdBuffer (b : Option Bytes) : World L :=
  match b with
  | none => w
  | some b => { w with memory := w.memory.put b }

/-- `_record_expression_result` and `_tempref_expression_result` of an answer -/
def recordAnswer (key : ExpressionKey) (r : Converted) : World L :=
  (w.insertResult key r.1).holdBuffer r.2

end World

/-! ## §2. Requests and shared work. -/

inductive Entry where
  | placed
  | localAsync
  | localSync
  deriving DecidableEq

/-- `execution`; `other` is refused. -/
inductive Execution where
  | auto
  | local
  | remote
  | other
  deriving DecidableEq

structure Request where
  entry : Entry
  key : ExpressionKey
  execution : Execution
  scratch : Bool
  /-- `none` is the default. -/
  materialize : Option Bool
  /-- `materialize_input is not None` -/
  materializeInput : Bool
  deriving DecidableEq

/-- `materialize`; a placed request has the default `not scratch`. -/
def Request.materializes (q : Request) : Bool :=
  q.materialize.getD (q.entry = .placed ∧ q.scratch = false)

/-- Where `_evaluate_expression_async` is. -/
inductive Stage where
  | started
  | checked (steps : List PathStep)
  | resolved (steps : List PathStep) (input : Option Bytes)

/-- Where a request is. -/
inductive Phase where
  /-- before the cache is looked up -/
  | entered
  /-- before the database is asked; `known` is the cached result -/
  | missed (known : Option Checksum)
  /-- before a location is chosen -/
  | placing (known : Option Checksum)
  | atLocal
  | atSync
  | atRemote
  /-- an evaluation of its own, outside any record -/
  | evaluating (stage : Stage)
  /-- the same in a thread; `record` is the record that the request owns -/
  | unshared (record : Option Nat)
  | waits (record : Nat) (remote : Bool)
  /-- a second, non-scratch dispatch -/
  | redispatching
  /-- `none` is an exception. -/
  | ended (answer : Option Checksum)

structure PlacedCall where
  request : Request
  phase : Phase

/-- Who does the work of a record. -/
inductive WorkKind where
  | task (stage : Stage)
  | owner
  | dispatch

/-- `_ActiveExpression`, as far as its result goes -/
structure SharedWork where
  key : ExpressionKey
  work : WorkKind
  /-- of the request that opened it -/
  materialize : Bool
  scratch : Bool
  dispatchedScratch : Option Bool
  /-- `result_future`; an exception is `some none`. -/
  result : Option (Option Checksum)

structure System (L : Libraries) where
  world : World L
  calls : Nat → PlacedCall
  callCount : Nat
  records : Nat → SharedWork
  recordCount : Nat
  /-- `_active_expressions` and `_lingering_expressions` -/
  registry : ExpressionKey → Option Nat

namespace System

variable {L : Libraries}

/-- No request yet. -/
def initial (w : World L) : System L where
  world := w
  calls _ := ⟨⟨.placed, ⟨L.sha256 [], [], folder, folder⟩, .auto, true, none, false⟩, .ended none⟩
  callCount := 0
  records _ := ⟨⟨L.sha256 [], [], folder, folder⟩, .owner, false, true, none, none⟩
  recordCount := 0
  registry _ := none

/-! ## §3. Parts of steps. -/

/-- A request goes on. -/
def goTo (s : System L) (i : Nat) (p : Phase) : System L :=
  { s with calls := Function.update s.calls i { s.calls i with phase := p } }

/-- The state of a record changes. -/
def setRecord (s : System L) (r : Nat) (a : SharedWork) : System L :=
  { s with records := Function.update s.records r a }

def setWorld (s : System L) (w : World L) : System L := { s with world := w }

/-- A new record is filed under its key. -/
def openRecord (s : System L) (a : SharedWork) : System L :=
  { s with
    records := Function.update s.records s.recordCount a
    recordCount := s.recordCount + 1
    registry := Function.update s.registry a.key (some s.recordCount) }

/-- The record that a request with the key would join -/
def joinable (s : System L) (key : ExpressionKey) : Option Nat :=
  (s.registry key).filter fun r => (s.records r).result.isNone

/-- `evaluate_expression_placed` inserts what a local evaluation returned. -/
def returnLocal (s : System L) (i : Nat) (c : Checksum) : System L :=
  let q := (s.calls i).request
  let s := if q.entry = .placed then s.setWorld (s.world.insertResult q.key c) else s
  s.goTo i (.ended (some c))

/-- Who evaluates: a request for itself, or the task of a record. -/
inductive Worker where
  | call (i : Nat)
  | record (r : Nat)
  deriving DecidableEq

/-- The result of an evaluation -/
def finish (s : System L) (c : Checksum) : Worker → System L
  | .call i => s.returnLocal i c
  | .record r => s.setRecord r { s.records r with result := some (some c) }

/-- An exception ends a request or the work of a record. -/
def raise (s : System L) : Worker → System L
  | .call i =>
    let t := s.goTo i (.ended none)
    match (s.calls i).phase with
    | .ended _ => s
    | .unshared (some r) => t.setRecord r { s.records r with result := some none }
    | _ => t
  | .record r =>
    if (s.records r).result.isNone then
      s.setRecord r { s.records r with result := some none }
    else s

/-- The next stage of an evaluation -/
def goStage (s : System L) (stage : Stage) : Worker → System L
  | .call i => s.goTo i (.evaluating stage)
  | .record r => s.setRecord r { s.records r with work := .task stage }

/-- Key, `materialize` and stage of a worker whose evaluation goes on. -/
def evaluation (s : System L) : Worker → Option (ExpressionKey × Bool × Stage)
  | .call i =>
    match (s.calls i).phase with
    | .evaluating stage => some ((s.calls i).request.key, (s.calls i).request.materializes, stage)
    | _ => none
  | .record r =>
    match (s.records r).work, (s.records r).result with
    | .task stage, none => some ((s.records r).key, (s.records r).materialize, stage)
    | _, _ => none

variable (P : PathLibrary L)

/-! ## §4. `_evaluate_expression_async`. -/

/-- The input buffer is asked for. -/
def needsInput (L : Libraries) (known : Knowledge) (key : ExpressionKey) (steps : List PathStep) : Bool :=
  steps ≠ [] ∨ key.inputCelltype ≠ key.celltype ∧
    isNull L (canonicalizeChecksum L key.inputChecksum key.celltype) = false ∧
    conversionNeedsBuffer L known key.inputChecksum key.inputCelltype key.celltype

/-- The cached checksum, where it is an answer -/
def cachedAnswer (w : World L) (key : ExpressionKey) (materialize : Bool) : Option Checksum :=
  (w.cache key).filter fun c => !materialize || w.hasLocalBuffer c

/-- From one `await` of `_evaluate_expression_async` to the next -/
def advance (s : System L) (worker : Worker) : System L :=
  match s.evaluation worker with
  | none => s
  | some (key, materialize, .started) =>
    match cachedAnswer s.world key materialize with
    | some c => s.finish c worker
    | none =>
      match parsePath P.interpreter key.path with
      | .error _ => s.raise worker
      | .ok steps => s.goStage (.checked steps) worker
  | some (key, _, .checked steps) =>
    if needsInput L s.world.known key steps then
      match s.world.resolution key.inputChecksum with
      | none => s.raise worker
      | some b => s.goStage (.resolved steps (some b)) worker
    else s.goStage (.resolved steps none) worker
  | some (key, _, .resolved steps input) =>
    match evaluateAfterValidation P s.world.known key steps input s.world.resolution with
    | none => s.raise worker
    | some r => (s.setWorld (s.world.recordAnswer key r)).finish r.1 worker

/-! ## §5. `evaluate_expression_local`. -/

/-- `not key.path and not conversion_needs_buffer(…)` -/
def bufferFree (L : Libraries) (known : Knowledge) (key : ExpressionKey) : Bool :=
  key.path = [] ∧ conversionNeedsBuffer L known key.inputChecksum key.inputCelltype
    key.celltype = false

/-- `evaluate_expression_local` up to its wait.  `sameLoop` is whether the
task of the record, if it has one, runs in the loop of the caller. -/
def enterSync (s : System L) (i : Nat) (sameLoop : Bool) : System L :=
  let q := (s.calls i).request
  if validateExpressionShape L P q.key.path q.key.inputCelltype q.key.celltype = false then
    s.raise (.call i)
  else
    match cachedAnswer s.world q.key q.materializes with
    | some c => s.goTo i (.ended (some c))
    | none =>
      if bufferFree L s.world.known q.key then s.goTo i (.unshared none)
      else
        match s.joinable q.key with
        | none =>
          (s.openRecord ⟨q.key, .owner, q.materializes, true, none, none⟩).goTo i
            (.unshared (some s.recordCount))
        | some r =>
          match (s.records r).work, sameLoop with
          | .owner, _ => s.goTo i (.waits r false)
          | _, true => s.goTo i (.unshared none)
          | _, false => s.goTo i (.waits r false)

/-- `_evaluate_expression_local_unshared` -/
def evaluateUnshared (s : System L) (i : Nat) : System L :=
  let key := (s.calls i).request.key
  match (s.calls i).phase, parsePath P.interpreter key.path with
  | .unshared record, .ok steps =>
    match evaluateAfterValidation P s.world.known key steps
      (s.world.localBuffer key.inputChecksum) s.world.resolution with
    | none => s.raise (.call i)
    | some r =>
      let t := (s.setWorld (s.world.recordAnswer key r)).goTo i (.ended (some r.1))
      match record with
      | none => t
      | some n => t.setRecord n { s.records n with result := some (some r.1) }
  | .unshared _, .error _ => s.raise (.call i)
  | _, _ => s

/-! ## §6. `evaluate_expression_local_async`. -/

/-- `evaluate_expression_local_async` up to its wait -/
def enterAsync (s : System L) (i : Nat) : System L :=
  let q := (s.calls i).request
  if validateExpressionShape L P q.key.path q.key.inputCelltype q.key.celltype = false then
    s.raise (.call i)
  else if (cachedAnswer s.world q.key q.materializes).isSome || bufferFree L s.world.known q.key then
    s.goTo i (.evaluating .started)
  else
    match s.joinable q.key with
    | none =>
      (s.openRecord ⟨q.key, .task .started, q.materializes, true, none, none⟩).goTo i
        (.waits s.recordCount false)
    | some r => s.goTo i (.waits r false)

/-! ## §7. `evaluate_expression_placed`. -/

/-- The first look at the cache -/
def lookUp (s : System L) (i : Nat) (o : World.Seen) : System L :=
  let q := (s.calls i).request
  match s.world.cache q.key with
  | none => s.goTo i (.missed none)
  | some c =>
    if !q.materializes || s.world.resultReachable o c then s.goTo i (.ended (some c))
    else s.goTo i (.missed (some c))

/-- The database is asked where the cache had nothing. -/
def askDatabase (s : System L) (i : Nat) (known : Option Checksum) (available : Bool)
    (o : World.Seen) : System L :=
  let q := (s.calls i).request
  if known.isSome ∨ available = false then s.goTo i (.placing known)
  else
    match s.world.rows q.key with
    | none => s.goTo i (.placing none)
    | some c =>
      let t := s.setWorld (s.world.insertResult q.key c)
      if !q.materializes || s.world.resultReachable o c then t.goTo i (.ended (some c))
      else t.goTo i (.placing (some c))

/-- What the placement gets to see. -/
structure Placement where
  /-- `_result_reachable(key.input_checksum)` -/
  inputReachable : Bool
  /-- What `materialize_input()` gives. -/
  givenInput : Checksum
  /-- `_has_local_buffer(key.input_checksum)` -/
  inputLocal : Bool
  /-- `_local_input_buffer_async` finds the buffer. -/
  inputFound : Bool
  /-- `seamless_remote` can be imported. -/
  imported : Bool
  /-- There is a jobserver or a daskserver. -/
  servers : Bool

/-- `needs_input` -/
def placedNeedsInput (L : Libraries) (known : Knowledge) (key : ExpressionKey) : Bool :=
  (key.path ≠ [] ∨ conversionNeedsBuffer L known key.inputChecksum key.inputCelltype key.celltype) ∧
    ¬ (key.path = [] ∧ isNull L key.inputChecksum)

/-- The location of an evaluation with `execution="auto"`; `none` is a
`CacheMissError`. -/
def chooseLocation (L : Libraries) (known : Knowledge) (key : ExpressionKey) (p : Placement) :
    Option Execution :=
  if bufferFree L known key || p.inputLocal || p.inputFound || !p.imported then some .local
  else if p.servers then some .remote
  else if placedNeedsInput L known key && !p.inputReachable then none
  else some .local

/-- The input has to be materialized first. -/
def wantsInput (L : Libraries) (known : Knowledge) (q : Request) (p : Placement) : Bool :=
  placedNeedsInput L known q.key && q.materializeInput && !p.inputReachable

/-- The location of a placed evaluation -/
def location (L : Libraries) (known : Knowledge) (q : Request) (p : Placement) : Option Execution :=
  if wantsInput L known q p || (q.scratch && q.materializes) then some .local
  else if q.execution = .auto then chooseLocation L known q.key p
  else some q.execution

/-- `evaluate_expression_placed` of the input that was given -/
def again (L : Libraries) (q : Request) (input : Checksum) : PlacedCall where
  request :=
    { q with
      key := .make L input q.key.path q.key.inputCelltype q.key.celltype
      execution := .local
      materialize := some q.materializes
      materializeInput := false }
  phase := .entered

/-- From the lookups to the evaluation -/
def place (s : System L) (i : Nat) (result : Option Checksum) (p : Placement) : System L :=
  let q := (s.calls i).request
  let known := s.world.known
  if wantsInput L known q p ∧ p.givenInput ≠ q.key.inputChecksum then
    { s with calls := Function.update s.calls i (again L q p.givenInput) }
  else
    match location L known q p with
    | some .local =>
      if result.isSome && placedNeedsInput L known q.key && !q.materializeInput &&
          !p.inputReachable then s.raise (.call i)
      else s.goTo i .atLocal
    | some .remote => s.goTo i .atRemote
    | _ => s.raise (.call i)

/-! ## §8. Dispatches. -/

/-- `_run_active_remote` up to its wait -/
def joinRemote (s : System L) (i : Nat) : System L :=
  let q := (s.calls i).request
  let t := match s.joinable q.key with
    | none => s.openRecord ⟨q.key, .dispatch, q.materializes, true, none, none⟩
    | some _ => s
  let r := (s.joinable q.key).getD s.recordCount
  let a := t.records r
  (t.setRecord r { a with scratch := a.scratch && q.scratch }).goTo i (.waits r true)

/-- `_execute_active_remote` up to its request -/
def sendRequest (s : System L) (r : Nat) : System L :=
  let a := s.records r
  match a.work, a.result, a.dispatchedScratch with
  | .dispatch, none, none => s.setRecord r { a with dispatchedScratch := some a.scratch }
  | _, _, _ => s

/-- The answer to a request -/
def receive (s : System L) (r : Nat) (c : Checksum) : System L :=
  let a := s.records r
  match a.work, a.result, a.dispatchedScratch with
  | .dispatch, none, some _ =>
    (s.setWorld (s.world.insertResult a.key c)).setRecord r { a with result := some (some c) }
  | _, _, _ => s

/-- What a request does with the answer it has waited for. -/
def resume (s : System L) (i : Nat) (r : Nat) (remote : Bool) (o : World.Seen) : System L :=
  let q := (s.calls i).request
  match (s.records r).result with
  | none => s
  | some none => s.raise (.call i)
  | some (some c) =>
    if remote then
      if q.materializes && (s.records r).dispatchedScratch == some true &&
          !s.world.resultReachable o c then s.goTo i .redispatching
      else s.goTo i (.ended (some c))
    else if q.materializes && !s.world.hasLocalBuffer c then
      s.goTo i (if q.entry = .localSync then .unshared none else .evaluating .started)
    else s.returnLocal i c

/-- The answer to a second dispatch -/
def receiveAgain (s : System L) (i : Nat) (c : Checksum) : System L :=
  (s.setWorld (s.world.insertResult (s.calls i).request.key c)).goTo i (.ended (some c))

/-! ## §9. The machine. -/

inductive Event (L : Libraries) where
  /-- Anything else that happens -/
  | world (w : World L)
  | request (q : Request)
  /-- A record leaves the registries: discarded, or not joined in time. -/
  | forget (key : ExpressionKey)
  | lookUp (i : Nat) (o : World.Seen)
  | askDatabase (i : Nat) (available : Bool) (o : World.Seen)
  | place (i : Nat) (p : Placement)
  | enter (i : Nat) (sameLoop : Bool)
  | advance (worker : Worker)
  | evaluateUnshared (i : Nat)
  | send (r : Nat)
  | receive (r : Nat) (c : Checksum)
  | resume (i : Nat) (o : World.Seen)
  | receiveAgain (i : Nat) (c : Checksum)
  | raise (worker : Worker)

/-- Where a request begins -/
def Request.firstPhase (q : Request) : Phase :=
  match q.entry with
  | .placed => .entered
  | .localAsync => .atLocal
  | .localSync => .atSync

/-- One step; one that cannot happen changes nothing. -/
def step (s : System L) : Event L → System L × Unit
  | .world w => (s.setWorld w, ())
  | .request q =>
    ({ s with
        calls := Function.update s.calls s.callCount ⟨q, Request.firstPhase q⟩
        callCount := s.callCount + 1 }, ())
  | .forget key => ({ s with registry := Function.update s.registry key none }, ())
  | .lookUp i o =>
    match (s.calls i).phase with
    | .entered => (s.lookUp i o, ())
    | _ => (s, ())
  | .askDatabase i available o =>
    match (s.calls i).phase with
    | .missed known => (s.askDatabase i known available o, ())
    | _ => (s, ())
  | .place i p =>
    match (s.calls i).phase with
    | .placing known => (s.place i known p, ())
    | _ => (s, ())
  | .enter i sameLoop =>
    match (s.calls i).phase with
    | .atLocal => (s.enterAsync P i, ())
    | .atSync => (s.enterSync P i sameLoop, ())
    | .atRemote => (s.joinRemote i, ())
    | _ => (s, ())
  | .advance worker => (s.advance P worker, ())
  | .evaluateUnshared i => (s.evaluateUnshared P i, ())
  | .send r => (s.sendRequest r, ())
  | .receive r c => (s.receive r c, ())
  | .resume i o =>
    match (s.calls i).phase with
    | .waits r remote => (s.resume i r remote o, ())
    | _ => (s, ())
  | .receiveAgain i c =>
    match (s.calls i).phase with
    | .redispatching => (s.receiveAgain i c, ())
    | _ => (s, ())
  | .raise worker => (s.raise worker, ())

end System

end SeamlessCore.Expression
