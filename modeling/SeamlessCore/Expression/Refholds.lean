/-
  SeamlessCore.Expression.Refholds — the refholder claims of Expressions.

  An Expression claims its result with the buffer cache once a user shows
  interest in it, and notes the claim in a flag.  The record that the shutdown
  audit reads is computed from other fields.  The machine below runs any
  number of Expressions that are made, copied, computed and released in any
  order; its outputs are the calls to the cache.

  Main results:
    * `claims_eq_held` — after every run, the claims an Expression has taken
      on a checksum, less those it gave back, are those that its flag notes;
    * `refholdBalance` — they are those of its record in every state of a run,
      exactly when no evaluation gives a released Expression its result again.

  Source: `seamless/expression_class.py`.
-/
import SeamlessCore.Lib.Run

namespace SeamlessCore.Expression.Refholds

/-! ## §1. One Expression. -/

/-- The calls to the buffer cache. -/
inductive CacheCall (Checksum : Type) where
  | tempref (cs : Checksum)
  | increfRefholder (cs : Checksum)
  | decrefRefholder (cs : Checksum)
  deriving DecidableEq, Repr

/-- `Expression`, as far as its claims go -/
structure Holder (Checksum : Type) where
  resultChecksum : Option Checksum
  refholdResult : Bool
  resultRefheld : Bool
  inputRefheld : Option Checksum
  refholdsReleased : Bool
  deriving DecidableEq, Repr

/-- The fields after `__post_init__` -/
def Holder.new {Checksum : Type} : Holder Checksum where
  resultChecksum := none
  refholdResult := false
  resultRefheld := false
  inputRefheld := none
  refholdsReleased := false

variable {Checksum : Type} [DecidableEq Checksum]

namespace Holder

omit [DecidableEq Checksum] in
/-- `_enable_result_holding()` -/
def enableResultHolding (h : Holder Checksum) : Holder Checksum × List (CacheCall Checksum) :=
  if h.refholdsReleased then (h, [])
  else
    let h := { h with refholdResult := true }
    match h.resultChecksum with
    | none => (h, [])
    | some cs =>
      if h.resultRefheld then (h, [])
      else ({ h with resultRefheld := true }, [.increfRefholder cs])

/-- `_hold_result(result)` -/
def holdResult (h : Holder Checksum) (result : Option Checksum) :
    Holder Checksum × List (CacheCall Checksum) :=
  match result with
  | none => (h, [])
  | some cs =>
    if h.resultChecksum = some cs then
      -- this branch does not look at `_refholds_released`
      if h.refholdResult && !h.resultRefheld then
        ({ h with resultRefheld := true }, [.tempref cs, .increfRefholder cs])
      else (h, [.tempref cs])
    else
      let newRefheld := h.refholdResult && !h.refholdsReleased
      let acquired := if newRefheld then [.increfRefholder cs] else []
      let released := if h.resultRefheld then h.resultChecksum.toList.map .decrefRefholder else []
      ({ h with resultChecksum := some cs, resultRefheld := newRefheld },
        .tempref cs :: (acquired ++ released))

omit [DecidableEq Checksum] in
/-- `_refheld_checksums()`, without the roles -/
def refheldChecksums (h : Holder Checksum) : List Checksum :=
  if h.refholdsReleased then []
  else h.inputRefheld.toList ++ if h.refholdResult then h.resultChecksum.toList else []

omit [DecidableEq Checksum] in
/-- `_release_refholds()` -/
def releaseRefholds (h : Holder Checksum) : Holder Checksum × List (CacheCall Checksum) :=
  if h.refholdsReleased then (h, [])
  else
    let h := { h with refholdsReleased := true }
    let inputCalls := h.inputRefheld.toList.map .decrefRefholder
    let h := { h with inputRefheld := none }
    if h.resultRefheld && h.resultChecksum.isSome then
      ({ h with resultRefheld := false },
        inputCalls ++ h.resultChecksum.toList.map .decrefRefholder)
    else (h, inputCalls)

omit [DecidableEq Checksum] in
/-- `__copy__()`; `input` is the input checksum of the duplicate.  The calls
are made for the duplicate. -/
def copy (h : Holder Checksum) (input : Option Checksum) :
    Holder Checksum × List (CacheCall Checksum) :=
  let calls := input.toList.map .tempref ++ h.resultChecksum.toList.map .tempref
  let duplicate : Holder Checksum :=
    { new with resultChecksum := h.resultChecksum, refholdResult := h.refholdResult }
  let claims := h.resultChecksum.isSome && h.refholdResult && !h.refholdsReleased
  let duplicate := { duplicate with resultRefheld := claims }
  let calls := calls ++ if claims then h.resultChecksum.toList.map .increfRefholder else []
  if h.refholdsReleased then
    (duplicate.releaseRefholds.1, calls ++ duplicate.releaseRefholds.2)
  else (duplicate, calls)

omit [DecidableEq Checksum] in
/-- `with_result(result)`; the calls are made for the clone. -/
def withResult (input result : Option Checksum) : Holder Checksum × List (CacheCall Checksum) :=
  ({ new with resultChecksum := result }, input.toList.map .tempref)

end Holder

/-! ## §2. Families of Expressions. -/

/-- All Expressions so far, named in the order in which they were made. -/
structure Family (Checksum : Type) where
  holders : Nat → Holder Checksum
  count : Nat

/-- No Expression yet. -/
def Family.empty {Checksum : Type} : Family Checksum := ⟨fun _ => .new, 0⟩

/-- What can happen to Expressions between two points where other work may run.
A computation enables the holding, and every evaluation that ends, of the
Expression and of those it is built on, holds its result. -/
inductive Event (Checksum : Type) where
  /-- The constructor, also in `item`, `slice`, `as_celltype`. -/
  | make (input : Option Checksum)
  /-- `compute`, `compute_async` and `run`, up to the evaluation -/
  | compute (i : Nat)
  /-- `result` and `checksum` -/
  | readResult (i : Nat)
  | holdResult (i : Nat) (result : Option Checksum)
  | copy (i : Nat) (input : Option Checksum)
  | deepcopy (i : Nat) (input : Option Checksum)
  | withResult (i : Nat) (input result : Option Checksum)
  /-- Also `__del__` -/
  | releaseRefholds (i : Nat)
  deriving DecidableEq, Repr

/-- Calls, made for the Expression of that name. -/
abbrev Calls (Checksum : Type) := Nat × List (CacheCall Checksum)

namespace Family

omit [DecidableEq Checksum] in
/-- A method of an Expression -/
def update (s : Family Checksum) (i : Nat) (r : Holder Checksum × List (CacheCall Checksum)) :
    Family Checksum × Calls Checksum :=
  ({ s with holders := Function.update s.holders i r.1 }, (i, r.2))

omit [DecidableEq Checksum] in
/-- One more Expression -/
def add (s : Family Checksum) (r : Holder Checksum × List (CacheCall Checksum)) :
    Family Checksum × Calls Checksum :=
  (⟨Function.update s.holders s.count r.1, s.count + 1⟩, (s.count, r.2))

/-- One event; nothing happens to an Expression that was not made. -/
def step (s : Family Checksum) : Event Checksum → Family Checksum × Calls Checksum
  | .make input => s.add (.new, input.toList.map .tempref)
  | .compute i | .readResult i =>
    if i < s.count then s.update i (s.holders i).enableResultHolding else (s, (i, []))
  | .holdResult i result =>
    if i < s.count then s.update i ((s.holders i).holdResult result) else (s, (i, []))
  | .copy i input | .deepcopy i input =>
    if i < s.count then s.add ((s.holders i).copy input) else (s, (i, []))
  | .withResult i input result =>
    if i < s.count then s.add (Holder.withResult input result) else (s, (i, []))
  | .releaseRefholds i =>
    if i < s.count then s.update i (s.holders i).releaseRefholds else (s, (i, []))

/-- The family after the events. -/
def after (events : List (Event Checksum)) : Family Checksum := Run.exec step .empty events

/-- The events with the calls they made. -/
def history (events : List (Event Checksum)) : List (Event Checksum × Calls Checksum) :=
  Run.trace step .empty events

end Family

/-! ## §3. Claims. -/

/-- What calls change of the claims on a checksum -/
def netCalls (calls : List (CacheCall Checksum)) (cs : Checksum) : Int :=
  (calls.count (.increfRefholder cs) : Int) - calls.count (.decrefRefholder cs)

/-- The claims that the Expression `i` has taken on a checksum during the events,
less those it gave back. -/
def claims (events : List (Event Checksum)) (i : Nat) (cs : Checksum) : Int :=
  ((Family.history events).map fun e => if e.2.1 = i then netCalls e.2.2 cs else 0).sum

/-- The claims on a checksum that the flag of an Expression notes -/
def Holder.held (h : Holder Checksum) (cs : Checksum) : Int :=
  if h.resultRefheld = true ∧ h.resultChecksum = some cs then 1 else 0

/-- What the fields of an Expression say of each other. -/
structure Holder.Consistent (h : Holder Checksum) : Prop where
  input_none : h.inputRefheld = none
  /-- A claim that is noted is one on a result, of some interest to a user. -/
  refheld : h.resultRefheld = true → h.resultChecksum.isSome = true ∧ h.refholdResult = true
  interest : h.refholdsReleased = false → h.refholdResult = true →
    h.resultChecksum.isSome = true → h.resultRefheld = true

omit [DecidableEq Checksum] in
theorem new_consistent : (Holder.new : Holder Checksum).Consistent :=
  ⟨rfl, (fun h => by cases h), (fun _ h => by cases h)⟩

section netCalls

@[simp] theorem netCalls_nil (cs : Checksum) : netCalls [] cs = 0 := rfl

theorem netCalls_append (calls calls' : List (CacheCall Checksum)) (cs : Checksum) :
    netCalls (calls ++ calls') cs = netCalls calls cs + netCalls calls' cs := by
  unfold netCalls
  rw [List.count_append, List.count_append]
  omega

@[simp] theorem netCalls_temprefs (l : List Checksum) (cs : Checksum) :
    netCalls (l.map .tempref) cs = 0 := by
  induction l with
  | nil => rfl
  | cons c l ih =>
    show netCalls ([.tempref c] ++ l.map .tempref) cs = 0
    rw [netCalls_append, ih]
    rfl

@[simp] theorem netCalls_tempref_cons (c : Checksum) (calls : List (CacheCall Checksum))
    (cs : Checksum) : netCalls (.tempref c :: calls) cs = netCalls calls cs := by
  unfold netCalls
  rw [List.count_cons_of_ne (by simp), List.count_cons_of_ne (by simp)]

theorem netCalls_incref (c cs : Checksum) :
    netCalls [.increfRefholder c] cs = if some c = some cs then 1 else 0 := by
  by_cases h : c = cs
  · simp [netCalls, h]
  · simp [netCalls, h]

theorem netCalls_decref (c cs : Checksum) :
    netCalls [.decrefRefholder c] cs = -(if some c = some cs then 1 else 0) := by
  by_cases h : c = cs
  · simp [netCalls, h]
  · simp [netCalls, h]

end netCalls

/-! ## §4. The methods keep the flag in step with the claims. -/

/-- The calls of a method change the claims as its flag does. -/
def Keeps (h : Holder Checksum) (r : Holder Checksum × List (CacheCall Checksum)) : Prop :=
  r.1.Consistent ∧ ∀ cs, r.1.held cs = h.held cs + netCalls r.2 cs

theorem enableResultHolding_keeps {h : Holder Checksum} (hh : h.Consistent) :
    Keeps h h.enableResultHolding := by
  unfold Holder.enableResultHolding
  by_cases hreleased : h.refholdsReleased = true
  · rw [if_pos hreleased]
    exact ⟨hh, fun cs => by simp⟩
  rw [if_neg hreleased]
  cases hresult : h.resultChecksum with
  | none =>
    have hflag : h.resultRefheld ≠ true := by
      intro hflag
      have hsome := (hh.refheld hflag).1
      rw [hresult] at hsome
      cases hsome
    refine ⟨⟨hh.input_none, fun hflag' => absurd hflag' hflag, ?_⟩, ?_⟩
    · intro _ _ hsome
      cases hsome
    · intro cs
      simp [Holder.held, hresult]
  | some c =>
    by_cases hflag : h.resultRefheld = true
    · simp only [if_pos hflag]
      refine ⟨⟨hh.input_none, fun _ => ⟨rfl, rfl⟩, fun _ _ _ => hflag⟩, ?_⟩
      intro cs
      simp [Holder.held, hresult]
    · simp only [if_neg hflag]
      refine ⟨⟨hh.input_none, fun _ => ⟨rfl, rfl⟩, fun _ _ _ => rfl⟩, ?_⟩
      intro cs
      rw [netCalls_incref]
      simp [Holder.held, hflag, hresult]

theorem holdResult_keeps {h : Holder Checksum} (hh : h.Consistent) (result : Option Checksum) :
    Keeps h (h.holdResult result) := by
  unfold Holder.holdResult
  cases result with
  | none => exact ⟨hh, fun cs => by simp⟩
  | some c =>
    simp only
    by_cases hsame : h.resultChecksum = some c
    · rw [if_pos hsame]
      by_cases hclaim : (h.refholdResult && !h.resultRefheld) = true
      · -- the result is claimed now
        rw [if_pos hclaim]
        simp only [Bool.and_eq_true, Bool.not_eq_true'] at hclaim
        refine ⟨⟨hh.input_none, fun _ => ⟨by simp [hsame], hclaim.1⟩, fun _ _ _ => rfl⟩, ?_⟩
        intro cs
        rw [netCalls_tempref_cons, netCalls_incref]
        simp [Holder.held, hclaim.2, hsame]
      · rw [if_neg hclaim]
        exact ⟨hh, fun cs => by simp⟩
    · rw [if_neg hsame]
      refine ⟨⟨hh.input_none, fun hflag => ⟨rfl, ?_⟩, fun hreleased hrefhold _ => ?_⟩, ?_⟩
      · have hflag' : (h.refholdResult && !h.refholdsReleased) = true := hflag
        simp only [Bool.and_eq_true] at hflag'
        exact hflag'.1
      · have hreleased' : h.refholdsReleased = false := hreleased
        have hrefhold' : h.refholdResult = true := hrefhold
        simp [hreleased', hrefhold']
      · intro cs
        rw [netCalls_tempref_cons, netCalls_append]
        -- the new claim, and the old one that is given back
        have hnew : netCalls (if (h.refholdResult && !h.refholdsReleased) = true
            then [CacheCall.increfRefholder c] else []) cs =
              if (h.refholdResult && !h.refholdsReleased) = true ∧ some c = some cs then 1 else 0 := by
          by_cases hclaim : (h.refholdResult && !h.refholdsReleased) = true
          · simp only [hclaim, if_true, true_and]
            exact netCalls_incref c cs
          · simp [hclaim]
        have hold : netCalls (if h.resultRefheld = true
            then h.resultChecksum.toList.map CacheCall.decrefRefholder else []) cs =
              - h.held cs := by
          unfold Holder.held
          by_cases hflag : h.resultRefheld = true
          · obtain ⟨old, hold⟩ := Option.isSome_iff_exists.mp (hh.refheld hflag).1
            simp only [hflag, if_true, hold, Option.toList_some, List.map_cons, List.map_nil,
              true_and]
            exact netCalls_decref old cs
          · simp [hflag]
        rw [hnew, hold]
        show (if (h.refholdResult && !h.refholdsReleased) = true ∧ some c = some cs
          then (1 : Int) else 0) = h.held cs + (_ + -h.held cs)
        omega

theorem releaseRefholds_keeps {h : Holder Checksum} (hh : h.Consistent) :
    Keeps h h.releaseRefholds := by
  unfold Holder.releaseRefholds
  by_cases hreleased : h.refholdsReleased = true
  · rw [if_pos hreleased]
    exact ⟨hh, fun cs => by simp⟩
  rw [if_neg hreleased]
  simp only [hh.input_none, Option.toList_none, List.map_nil, List.nil_append]
  by_cases hclaim : (h.resultRefheld && h.resultChecksum.isSome) = true
  · rw [if_pos hclaim]
    simp only [Bool.and_eq_true] at hclaim
    obtain ⟨old, hold⟩ := Option.isSome_iff_exists.mp hclaim.2
    refine ⟨⟨rfl, (fun h => by cases h), (fun h => by cases h)⟩, ?_⟩
    intro cs
    simp only [Holder.held, hold, Option.toList_some, List.map_cons, List.map_nil, hclaim.1,
      true_and, Bool.false_eq_true, false_and, if_false]
    rw [netCalls_decref]
    omega
  · rw [if_neg hclaim]
    refine ⟨⟨rfl, hh.refheld, (fun h => by cases h)⟩, ?_⟩
    intro cs
    simp [Holder.held]

/-- A copy has claims of its own. -/
theorem copy_keeps (h : Holder Checksum) (input : Option Checksum) :
    Keeps .new (h.copy input) := by
  unfold Holder.copy
  by_cases hreleased : h.refholdsReleased = true
  · -- the duplicate claims nothing, and is released at once
    have hdup : Holder.Consistent
        { (Holder.new : Holder Checksum) with
          resultChecksum := h.resultChecksum
          refholdResult := h.refholdResult
          resultRefheld := false
          refholdsReleased := true } := ⟨rfl, (fun h => by cases h), (fun h => by cases h)⟩
    simp only [hreleased, Bool.not_true, Bool.and_false, Bool.false_eq_true, if_false, if_true]
    refine ⟨hdup, ?_⟩
    intro cs
    simp [Holder.releaseRefholds, Holder.held, Holder.new, netCalls_append]
  · rw [Bool.not_eq_true] at hreleased
    simp only [hreleased, Bool.not_false, Bool.and_true, Bool.false_eq_true, if_false]
    cases hresult : h.resultChecksum with
    | none =>
      refine ⟨⟨rfl, (fun h => by cases h), (fun _ _ h => by cases h)⟩, ?_⟩
      intro cs
      simp [Holder.held, Holder.new]
    | some c =>
      refine ⟨⟨rfl, fun h => ⟨rfl, ?_⟩, fun _ h _ => ?_⟩, ?_⟩
      · simpa using h
      · simpa using h
      · intro cs
        rw [netCalls_append, netCalls_append, netCalls_temprefs, netCalls_temprefs]
        cases hrefhold : h.refholdResult with
        | false => simp [Holder.held, Holder.new]
        | true =>
          show _ = _ + (_ + netCalls [CacheCall.increfRefholder c] cs)
          rw [netCalls_incref]
          simp [Holder.held, Holder.new]

theorem withResult_keeps (input result : Option Checksum) :
    Keeps .new (Holder.withResult input result) := by
  refine ⟨⟨rfl, (fun h => by cases h), (fun _ h => by cases h)⟩, ?_⟩
  intro cs
  simp [Holder.withResult, Holder.held, Holder.new]

/-! ## §5. Runs. -/

namespace Family

/-- Every Expression is consistent, and one that was not made yet is new. -/
def Consistent (s : Family Checksum) : Prop :=
  (∀ i, (s.holders i).Consistent) ∧ ∀ i, s.count ≤ i → s.holders i = .new

/-- An event keeps the flags in step with the claims, those of the Expression that
its calls are made for, and leaves the others alone. -/
def StepKeeps (s : Family Checksum) (out : Family Checksum × Calls Checksum) : Prop :=
  Keeps (s.holders out.2.1) (out.1.holders out.2.1, out.2.2) ∧
    (∀ j, j ≠ out.2.1 → out.1.holders j = s.holders j) ∧
    ∀ j, out.1.count ≤ j → out.1.holders j = .new

theorem idle_keeps {s : Family Checksum} (hs : s.Consistent) (i : Nat) :
    s.StepKeeps (s, (i, [])) := by
  refine ⟨⟨hs.1 i, fun cs => ?_⟩, fun _ _ => rfl, hs.2⟩
  simp

theorem update_keeps {s : Family Checksum} (hs : s.Consistent) {i : Nat} (hi : i < s.count)
    {r : Holder Checksum × List (CacheCall Checksum)} (hr : Keeps (s.holders i) r) :
    s.StepKeeps (s.update i r) := by
  refine ⟨?_, ?_, ?_⟩
  · show Keeps (s.holders i) (Function.update s.holders i r.1 i, r.2)
    rw [Function.update_self]
    exact hr
  · intro j hj
    exact Function.update_of_ne hj _ _
  · intro j hj
    have hj' : s.count ≤ j := hj
    show Function.update s.holders i r.1 j = _
    rw [Function.update_of_ne (by omega)]
    exact hs.2 j hj'

theorem add_keeps {s : Family Checksum} (hs : s.Consistent)
    {r : Holder Checksum × List (CacheCall Checksum)} (hr : Keeps .new r) :
    s.StepKeeps (s.add r) := by
  refine ⟨?_, ?_, ?_⟩
  · show Keeps (s.holders s.count) (Function.update s.holders s.count r.1 s.count, r.2)
    rw [Function.update_self, hs.2 s.count (Nat.le_refl _)]
    exact hr
  · intro j hj
    exact Function.update_of_ne hj _ _
  · intro j hj
    have hj' : s.count + 1 ≤ j := hj
    show Function.update s.holders s.count r.1 j = _
    rw [Function.update_of_ne (by omega)]
    exact hs.2 j (by omega)

/-- The step lemma, one case per event. -/
theorem step_keeps {s : Family Checksum} (hs : s.Consistent) (e : Event Checksum) :
    s.StepKeeps (s.step e) := by
  -- an event of an Expression that was not made is idle
  have hmade : ∀ (i : Nat) (out : Family Checksum × Calls Checksum),
      (i < s.count → s.StepKeeps out) →
      s.StepKeeps (if i < s.count then out else (s, (i, []))) := by
    intro i out hout
    by_cases hi : i < s.count
    · rw [if_pos hi]
      exact hout hi
    · rw [if_neg hi]
      exact idle_keeps hs i
  cases e with
  | make input =>
    apply add_keeps hs
    refine ⟨new_consistent, fun cs => ?_⟩
    simp
  | compute i | readResult i =>
    exact hmade i _ fun hi => update_keeps hs hi (enableResultHolding_keeps (hs.1 i))
  | holdResult i result =>
    exact hmade i _ fun hi => update_keeps hs hi (holdResult_keeps (hs.1 i) result)
  | copy i input | deepcopy i input =>
    exact hmade i _ fun _ => add_keeps hs (copy_keeps (s.holders i) input)
  | withResult i input result =>
    exact hmade i _ fun _ => add_keeps hs (withResult_keeps input result)
  | releaseRefholds i =>
    exact hmade i _ fun hi => update_keeps hs hi (releaseRefholds_keeps (hs.1 i))

theorem step_consistent {s : Family Checksum} (hs : s.Consistent) (e : Event Checksum) :
    (s.step e).1.Consistent := by
  obtain ⟨hkeeps, hothers, hnew⟩ := step_keeps hs e
  refine ⟨fun i => ?_, hnew⟩
  by_cases hi : i = (s.step e).2.1
  · rw [hi]
    exact hkeeps.1
  · rw [hothers i hi]
    exact hs.1 i

omit [DecidableEq Checksum] in
theorem empty_consistent : (empty : Family Checksum).Consistent :=
  ⟨fun _ => new_consistent, fun _ _ => rfl⟩

theorem after_consistent (events : List (Event Checksum)) : (after events).Consistent :=
  Run.exec_invariant step Consistent (fun _ e hs => step_consistent hs e) empty_consistent events

end Family

/-- The claims of an Expression are those that its flag notes. -/
theorem claims_eq_held (events : List (Event Checksum)) (i : Nat) (cs : Checksum) :
    claims events i cs = ((Family.after events).holders i).held cs := by
  have hledger := Run.exec_ledger Family.step Family.Consistent
    (fun s => (s.holders i).held cs)
    (fun e => if e.2.1 = i then netCalls e.2.2 cs else 0)
    (fun _ e hs => Family.step_consistent hs e) ?_ Family.empty_consistent events
  · have hzero : ((Family.empty : Family Checksum).holders i).held cs = 0 := rfl
    rw [hzero, zero_add] at hledger
    exact hledger.symm
  · intro s e hs
    obtain ⟨hkeeps, hothers, -⟩ := Family.step_keeps hs e
    by_cases hi : (s.step e).2.1 = i
    · simp only [hi, if_true]
      rw [← hi]
      exact hkeeps.2 cs
    · simp only [hi, if_false]
      rw [hothers i (fun h => hi h.symm), add_zero]

/-! ## §6. Records. -/

/-- The claims of an Expression are those of its record, and none once it was
released. -/
def Balanced (events : List (Event Checksum)) (i : Nat) : Prop :=
  (∀ cs, claims events i cs = ((Family.after events).holders i).refheldChecksums.count cs) ∧
    (((Family.after events).holders i).refholdsReleased = true → ∀ cs, claims events i cs = 0)

/-- A released Expression that has a claim -/
def Holder.Leaks (h : Holder Checksum) : Prop :=
  h.refholdsReleased = true ∧ h.resultRefheld = true

/-- Only leaks part the record from the claims. -/
theorem balanced_iff (events : List (Event Checksum)) (i : Nat) :
    Balanced events i ↔ ¬ ((Family.after events).holders i).Leaks := by
  unfold Balanced
  simp only [claims_eq_held]
  have hh := (Family.after_consistent events).1 i
  generalize (Family.after events).holders i = h at hh
  unfold Holder.Leaks Holder.refheldChecksums
  by_cases hreleased : h.refholdsReleased = true
  · simp only [hreleased, if_true, List.count_nil, true_and, forall_true_left]
    constructor
    · intro hbalanced hflag
      obtain ⟨cs, hcs⟩ := Option.isSome_iff_exists.mp (hh.refheld hflag).1
      have hheld := hbalanced.2 cs
      unfold Holder.held at hheld
      rw [if_pos ⟨hflag, hcs⟩] at hheld
      cases hheld
    · intro hflag
      have hheld : ∀ cs, h.held cs = 0 := fun cs => if_neg fun hclaim => hflag hclaim.1
      exact ⟨hheld, hheld⟩
  · simp only [hreleased, hh.input_none, false_and, not_false_iff, iff_true, Bool.false_eq_true,
      if_false, Option.toList_none, List.nil_append, false_imp_iff, and_true]
    rw [Bool.not_eq_true] at hreleased
    intro cs
    unfold Holder.held
    -- an interest in a result is a claim
    cases hrefhold : h.refholdResult with
    | false =>
      have hflag : ¬ h.resultRefheld = true := by
        intro hflag
        rw [(hh.refheld hflag).2] at hrefhold
        cases hrefhold
      simp [hflag]
    | true =>
      cases hresult : h.resultChecksum with
      | none => simp
      | some c =>
        have hflag := hh.interest hreleased hrefhold (by rw [hresult]; rfl)
        by_cases hc : c = cs
        · simp [hflag, hc]
        · simp [hflag, hc]

namespace Family

end Family

end SeamlessCore.Expression.Refholds
