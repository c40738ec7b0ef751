/-
  SeamlessCore.Expression.Evaluations — shared evaluations with their inputs.

  The records of `Shared`, with what they do besides sharing a result: they
  claim the buffers of their inputs while the work runs, and a remote one
  sends a request that says whether the result may stay scratch.  An
  evaluation is entered as a synchronous owner, as a local task or as a remote
  dispatch; a celljoin is one of the latter two.  The registry of every key is
  a machine of its own, and a process runs the machines of all keys.

  There are two machines.  In `step` every claim is given back.  In `stepRun`
  each `decref_refholder` may raise: the claim itself is gone then (the count
  is lowered before the entry is demoted), but the loop over the others ends.

  `ended` is not a field of the source: it marks that the work of a record has
  returned or raised.

  Source: `seamless/checksum/expression.py`, `seamless/checksum/celljoin.py`.
-/
import SeamlessCore.Expression.Shared
import SeamlessCore.Expression.Refholds

namespace SeamlessCore.Expression

open Refholds (CacheCall)

/-! ## §1. Records. -/

/-- The fields of `_ActiveExpression` that sharing does not need. -/
structure Work (Checksum : Type) where
  /-- The task is `_execute_active_remote`. -/
  remote : Bool
  inputClaims : List Checksum
  scratch : Bool
  dispatchedScratch : Option Bool
  /-- The setting that the request carried, once it was sent. -/
  sent : Option Bool
  ended : Bool

/-- The fields of a record that was not made -/
def Work.blank {Checksum : Type} : Work Checksum where
  remote := false
  inputClaims := []
  scratch := true
  dispatchedScratch := none
  sent := none
  ended := false

/-- A new record that claims its inputs -/
def Work.opened {Checksum : Type} (remote : Bool) (claims : List Checksum) : Work Checksum :=
  { (Work.blank : Work Checksum) with remote := remote, inputClaims := claims }

/-- The evaluations of one key. -/
structure Evaluations (Member Checksum : Type) where
  registry : Registry Member
  work : Nat → Work Checksum
  /-- The `scratch` of the calls that asked for a remote evaluation. -/
  requestScratch : Nat → Option Bool

variable {Member Checksum : Type} [DecidableEq Member] [DecidableEq Checksum]

namespace Evaluations

/-- No record and no call yet. -/
def initial (m : Member) : Evaluations Member Checksum where
  registry := .initial m
  work _ := .blank
  requestScratch _ := none

/-- An update of the fields of one record. -/
def setWork (s : Evaluations Member Checksum) (r : Nat) (f : Work Checksum → Work Checksum) :
    Evaluations Member Checksum :=
  { s with work := Function.update s.work r (f (s.work r)) }

/-- Calls to the buffer cache, made for a record -/
abbrev Calls (Checksum : Type) := Nat × List (CacheCall Checksum)

/-! ## §2. Inputs. -/

/-- `hold_inputs(checksums)` of a new record -/
def holdInputs (s : Evaluations Member Checksum) (r : Nat) (remote : Bool)
    (checksums : List Checksum) : Evaluations Member Checksum × List (CacheCall Checksum) :=
  let claims := checksums.eraseDups
  (s.setWork r fun _ => .opened remote claims, claims.map .increfRefholder)

/-- `_release_refholds()` -/
def releaseRefholds (s : Evaluations Member Checksum) (r : Nat) :
    Evaluations Member Checksum × Calls Checksum :=
  let claims := (s.work r).inputClaims
  (s.setWork r fun w => { w with inputClaims := [] }, (r, claims.map .decrefRefholder))

/-! ## §3. Entries. -/

/-- `active.scratch = active.scratch and scratch`, where the call has a setting -/
def demandScratch (s : Evaluations Member Checksum) (r : Nat) :
    Option Bool → Evaluations Member Checksum
  | none => s
  | some b => s.setWork r fun w => { w with scratch := w.scratch && b }

/-- The call's part of `evaluate_expression_local_async`, of
`evaluate_celljoin_local_async` and of `_run_active_remote` up to its wait.
The last has a setting of `scratch`. -/
def joinTask (s : Evaluations Member Checksum) (m : Member) (remote : Bool)
    (checksums : List Checksum) (scratch : Option Bool) :
    Evaluations Member Checksum × Calls Checksum :=
  let (r, created, _) := s.registry.obtain (some .running)
  let (s, calls) := if created then s.holdInputs r remote checksums else (s, [])
  let s := s.demandScratch r scratch
  let c := s.registry.callCount
  ({ s with
      registry := s.registry.joinAsync m
      requestScratch := Function.update s.requestScratch c scratch }, (r, calls))

/-- The call's part of `evaluate_expression_local` up to its wait. -/
def joinSync (s : Evaluations Member Checksum) (m : Member) (sameLoop : Bool)
    (input : Checksum) : Evaluations Member Checksum × Calls Checksum :=
  let (r, created, _) := s.registry.obtain none
  let (s, calls) := if created then s.holdInputs r false [input] else (s, [])
  ({ s with registry := s.registry.joinSync m sameLoop }, (r, calls))

/-! ## §4. The machine. -/

/-- What can happen to the evaluations of a key. -/
inductive Activity (Member Checksum : Type) where
  | joinLocal (m : Member) (checksums : List Checksum)
  | joinRemote (m : Member) (checksums : List Checksum) (scratch : Bool)
  | joinSync (m : Member) (sameLoop : Bool) (input : Checksum)
  /-- The first step of `_execute_active_remote` -/
  | startRemote (r : Nat)
  /-- The request of a remote record is sent; a celljoin reads the setting
  again, once its definition was written. -/
  | dispatch (r : Nat)
  /-- The `finally` of `_execute_active_remote`, and the end of the task. -/
  | finishRemote (r : Nat)
  /-- The task of a record is cancelled from outside. -/
  | cancelWork (r : Nat)
  /-- Any event of the registry but a join -/
  | event (e : Registry.Event Member)

/-- The task of the record has not finished. -/
def Pending (s : Evaluations Member Checksum) (r : Nat) : Prop :=
  (s.registry.records r).task = some .running ∨
    (s.registry.records r).task = some .cancelRequested

omit [DecidableEq Member] [DecidableEq Checksum] in
instance (s : Evaluations Member Checksum) (r : Nat) : Decidable (s.Pending r) :=
  inferInstanceAs (Decidable (_ ∨ _))

/-- The record was made. -/
def Made (s : Evaluations Member Checksum) (r : Nat) : Prop := r < s.registry.recordCount

omit [DecidableEq Member] [DecidableEq Checksum] in
instance (s : Evaluations Member Checksum) (r : Nat) : Decidable (s.Made r) :=
  inferInstanceAs (Decidable (_ < _))

/-- An event of the registry that changes nothing else. -/
def shared (s : Evaluations Member Checksum) (e : Registry.Event Member) :
    Evaluations Member Checksum :=
  { s with registry := s.registry.stepEvent e }

/-- The work of a record has returned or raised. -/
def endWork (s : Evaluations Member Checksum) (r : Nat) : Evaluations Member Checksum :=
  s.setWork r fun w => { w with ended := true }

/-- The events of the registry, and what they do to claims. -/
def stepShared (s : Evaluations Member Checksum) (e : Registry.Event Member) :
    Evaluations Member Checksum × Calls Checksum :=
  match e with
  -- joins claim inputs, and are activities of their own
  | .joinAsync _ | .joinSync _ _ => (s, (0, []))
  | .settleOwner c _ =>
    let r := (s.registry.calls c).record
    if Registry.Unfinished s.registry c ∧ (s.registry.calls c).kind = .owns then
      ((s.shared e).endWork r, (r, []))
    else (s, (r, []))
  | .finishOwner c =>
    let r := (s.registry.calls c).record
    if s.Made r ∧ (s.registry.records r).resultFuture.isSome ∧
        Registry.Unfinished s.registry c ∧ (s.registry.calls c).kind = .owns then
      (s.shared e).releaseRefholds r
    else (s, (r, []))
  | .settleTask r failed =>
    -- a remote result is the answer to a request
    if s.Pending r ∧ ((s.work r).remote = true → failed = false → (s.work r).sent.isSome) then
      ((s.shared e).endWork r, (r, []))
    else (s, (r, []))
  | .cancelTask r =>
    if (s.registry.records r).task = some .cancelRequested then
      ((s.shared e).endWork r, (r, []))
    else (s, (r, []))
  | .dropTask r =>
    if (s.registry.records r).task = some .cancelRequested ∧
        (s.registry.records r).resultFuture = none then
      ((s.shared e).endWork r, (r, []))
    else (s, (r, []))
  | .finishTask r => if (s.work r).remote then (s, (r, [])) else (s.shared e, (r, []))
  | .discard r =>
    if s.Made r ∧ (s.registry.records r).task = some .done then (s.shared e).releaseRefholds r
    else (s, (r, []))
  | _ => (s.shared e, (0, []))

/-- One activity; one that cannot happen changes nothing. -/
def step (s : Evaluations Member Checksum) :
    Activity Member Checksum → Evaluations Member Checksum × Calls Checksum
  | .joinLocal m checksums => s.joinTask m false checksums none
  | .joinRemote m checksums scratch => s.joinTask m true checksums (some scratch)
  | .joinSync m sameLoop input => s.joinSync m sameLoop input
  | .startRemote r =>
    if (s.work r).remote ∧ s.Pending r ∧ (s.work r).dispatchedScratch = none then
      (s.setWork r fun w => { w with dispatchedScratch := some w.scratch }, (r, []))
    else (s, (r, []))
  | .dispatch r =>
    if (s.work r).remote ∧ s.Pending r ∧ (s.work r).ended = false ∧ (s.work r).sent = none then
      (s.setWork r fun w =>
        { w with dispatchedScratch := some w.scratch, sent := some w.scratch }, (r, []))
    else (s, (r, []))
  | .finishRemote r =>
    if s.Made r ∧ (s.work r).remote ∧ s.Pending r ∧
        (s.registry.records r).resultFuture.isSome then
      -- `_discard_active_expression`, before the callback does it again
      ((s.shared (.finishTask r)).shared (.discard r)).releaseRefholds r
    else (s, (r, []))
  | .cancelWork r =>
    ({ s with registry := s.registry.updateRecord r Registry.requestCancel }, (r, []))
  | .event e => s.stepShared e

/-! ## §5. Releases that raise. -/

/-- The lock of `_discard_active_expression`, and of a synchronous owner's
`finally`: the record leaves the maps, and its timer is cancelled. -/
def unfile (s : Evaluations Member Checksum) (r : Nat) : Evaluations Member Checksum :=
  { s with registry :=
      ((s.registry.popActive r).popLingering r).updateRecord r Registry.cancelLinger }

/-- The loop of `_release_refholds`: the claims that it gives back, the one
whose `decref_refholder` raises included, and whether it comes to its end. -/
def giveBack (fades : Checksum → Bool) : List Checksum → List Checksum × Bool
  | [] => ([], true)
  | cs :: claims =>
    if fades cs then ([cs], false)
    else (cs :: (giveBack fades claims).1, (giveBack fades claims).2)

/-- `_release_refholds()`, and whether it returns; the record has dropped all
its claims before the first is given back. -/
def releaseRefholdsRun (s : Evaluations Member Checksum) (fades : Checksum → Bool) (r : Nat) :
    Evaluations Member Checksum × Calls Checksum × Bool :=
  let given := giveBack fades (s.work r).inputClaims
  (s.setWork r fun w => { w with inputClaims := [] },
    (r, given.1.map .decrefRefholder), given.2)

/-- `_discard_active_expression(key, active)`; when it raises, a future that
is not done stays so. -/
def discardRun (s : Evaluations Member Checksum) (fades : Checksum → Bool) (r : Nat) :
    Evaluations Member Checksum × Calls Checksum :=
  let (s, calls, returns) := (s.unfile r).releaseRefholdsRun fades r
  if returns then
    ({ s with registry := s.registry.updateRecord r fun a => Registry.settle a .cancelled }, calls)
  else (s, calls)

/-- The `finally` of the synchronous owner `c`, and its end: what the release
raises replaces the result. -/
def finishOwnerRun (s : Evaluations Member Checksum) (fades : Checksum → Bool) (c : Nat) :
    Evaluations Member Checksum × Calls Checksum :=
  let r := (s.registry.calls c).record
  let (s, calls, returns) := (s.unfile r).releaseRefholdsRun fades r
  let verdict := if returns then (s.registry.records r).resultFuture else some .error
  ({ s with registry := s.registry.updateCall c fun call => { call with ended := verdict } }, calls)

/-- One activity, where `fades` says which claims raise when they are given
back; one that gives no claim back is as before. -/
def stepRun (s : Evaluations Member Checksum) :
    Activity Member Checksum × (Checksum → Bool) → Evaluations Member Checksum × Calls Checksum
  | (.finishRemote r, fades) =>
    if s.Made r ∧ (s.work r).remote ∧ s.Pending r ∧
        (s.registry.records r).resultFuture.isSome then
      (s.shared (.finishTask r)).discardRun fades r
    else (s, (r, []))
  | (.event (.finishOwner c), fades) =>
    let r := (s.registry.calls c).record
    if s.Made r ∧ (s.registry.records r).resultFuture.isSome ∧
        Registry.Unfinished s.registry c ∧ (s.registry.calls c).kind = .owns then
      s.finishOwnerRun fades c
    else (s, (r, []))
  | (.event (.discard r), fades) =>
    if s.Made r ∧ (s.registry.records r).task = some .done then s.discardRun fades r
    else (s, (r, []))
  | (a, _) => s.step a

/-! ## §6. All keys. -/

variable {Key : Type} [DecidableEq Key]

/-- The evaluations of all keys after the activities. -/
def after (m : Member) (activities : List (Key × Activity Member Checksum)) :
    Key → Evaluations Member Checksum :=
  Run.exec (Run.keyed step) (fun _ => initial m) activities

/-- The evaluations of all keys after activities whose releases may raise. -/
def afterRun (m : Member) (activities : List (Key × Activity Member Checksum × (Checksum → Bool))) :
    Key → Evaluations Member Checksum :=
  Run.exec (Run.keyed stepRun) (fun _ => initial m) activities

/-- These activities, with the calls they made -/
def historyRun (m : Member)
    (activities : List (Key × Activity Member Checksum × (Checksum → Bool))) :
    List ((Key × Activity Member Checksum × (Checksum → Bool)) × Calls Checksum) :=
  Run.trace (Run.keyed stepRun) (fun _ => initial m) activities

end Evaluations

end SeamlessCore.Expression
