/-
  SeamlessCore.Expression.Discipline — evaluations over whole runs.

  A record claims its inputs once, when a call makes it, and once it has
  completed it has given each claim back once and is in neither map for good.
  Only the exceptions of the buffer cache spoil this: `_release_refholds`
  drops all claims first, and stops at the first `decref_refholder` that
  raises.  What was not given back by then stays claimed, and no record knows
  of it.

  Which record a call makes (`Opens`) and which one has completed
  (`Completes`) are read off the registry, not off the claims.

  Main results:
    * `claims_within` — in every run, no claim is given back more often than
      it was taken;
    * `claims_balanced` — where no release is cut short, as often;
    * `registryDiscipline` — the runs of all keys.
-/
import SeamlessCore.Expression.Claims

namespace SeamlessCore.Expression

open Refholds (CacheCall)

variable {Member Checksum : Type} [DecidableEq Member] [DecidableEq Checksum]

namespace Evaluations

/-! ## §1. Openings and completions. -/

/-- The inputs of the evaluation that a join asks for -/
def Activity.inputs : Activity Member Checksum → Option (List Checksum)
  | .joinLocal _ checksums | .joinRemote _ checksums _ => some checksums
  | .joinSync _ _ input => some [input]
  | _ => none

/-- A call makes the record: it finds none for its key, or one with a result. -/
def Opens (s : Evaluations Member Checksum) (a : Activity Member Checksum) (r : Nat)
    (claims : List Checksum) : Prop :=
  a.inputs = some claims ∧ r = s.registry.recordCount ∧
    ∀ r' ∈ s.registry.findRecord.1, (s.registry.records r').resultFuture.isSome = true

/-- The completion callback of the record runs, or the `finally` of its
synchronous owner. -/
def Completes (s : Evaluations Member Checksum) (r : Nat) : Activity Member Checksum → Prop
  | .event (.discard r') =>
    r' = r ∧ s.Made r ∧ (s.registry.records r).task = some .done
  | .event (.finishOwner c) =>
    (s.registry.calls c).record = r ∧ s.Made r ∧
      (s.registry.records r).resultFuture.isSome = true ∧ Registry.Unfinished s.registry c ∧
      (s.registry.calls c).kind = .owns
  | _ => False

/-- No claim raises when it is given back, unless it is the last of its record. -/
def Quiet (s : Evaluations Member Checksum) (a : Activity Member Checksum × (Checksum → Bool)) :
    Prop :=
  ∀ r ∈ s.releasing a.1, ∀ cs ∈ (s.work r).inputClaims.dropLast, a.2 cs = false

omit [DecidableEq Member] in
/-- A call that finds no such record makes one. -/
theorem obtain_new {s : Registry Member} {task : Option TaskState}
    (h : ∀ r ∈ s.findRecord.1, (s.records r).resultFuture.isSome = true) :
    (s.obtain task).2.1 = true := by
  unfold Registry.obtain
  unfold Registry.findRecord at h ⊢
  cases hactive : s.active with
  | some r =>
    rw [hactive] at h
    simp only
    rw [if_pos (h r rfl)]
  | none =>
    rw [hactive] at h
    cases hlingering : s.lingering with
    | none => rfl
    | some r =>
      simp only
      rw [if_pos (h r hlingering)]

/-- The record that a call makes claims the inputs of the call. -/
theorem opens_takes {s : Evaluations Member Checksum} {a : Activity Member Checksum × (Checksum → Bool)}
    {r : Nat} {claims : List Checksum} (h : s.Opens a.1 r claims) :
    Takes s (s.stepRun a) r claims := by
  obtain ⟨hinputs, hr, hfound⟩ := h
  obtain ⟨a, fades⟩ := a
  rw [hr]
  cases a with
  | joinLocal m checksums =>
    rw [← Option.some.inj hinputs]
    exact joinTask_takes m false checksums none (obtain_new hfound)
  | joinRemote m checksums scratch =>
    rw [← Option.some.inj hinputs]
    exact joinTask_takes m true checksums (some scratch) (obtain_new hfound)
  | joinSync m sameLoop input =>
    rw [← Option.some.inj hinputs]
    exact (joinSync_takes m sameLoop input (obtain_new hfound)).1
  | _ => cases hinputs

/-- A record that completes has no claims left, and is in neither map. -/
theorem completes_ends {s : Evaluations Member Checksum}
    {a : Activity Member Checksum × (Checksum → Bool)} {r : Nat} (h : s.Completes r a.1) :
    s.Made r ∧ ((s.stepRun a).1.work r).inputClaims = [] ∧
      ¬ (s.stepRun a).1.registry.InMaps r := by
  obtain ⟨a, fades⟩ := a
  cases a with
  | event e =>
    cases e with
    | discard r' =>
      obtain ⟨rfl, hmade, htask⟩ := h
      obtain ⟨hwork, -, -, hmaps⟩ := s.discardRun_spec fades r'
      have hstep : s.stepRun (.event (.discard r'), fades) = s.discardRun fades r' :=
        if_pos ⟨hmade, htask⟩
      rw [hstep, hwork, Function.update_self]
      exact ⟨hmade, rfl, hmaps⟩
    | finishOwner c =>
      obtain ⟨rfl, hmade, hguard⟩ := h
      obtain ⟨hwork, -, -, hmaps⟩ := s.finishOwnerRun_spec fades c
      have hstep : s.stepRun (.event (.finishOwner c), fades) = s.finishOwnerRun fades c :=
        if_pos ⟨hmade, hguard⟩
      rw [hstep, hwork, Function.update_self]
      exact ⟨hmade, rfl, hmaps⟩
    | _ => exact h.elim
  | _ => exact h.elim

/-! ## §2. The calls of a run. -/

/-- The calls of one kind that a run of a key made for a record -/
def callsOf (calls : List ((Activity Member Checksum × (Checksum → Bool)) × Calls Checksum))
    (r : Nat) (call : CacheCall Checksum) : Nat :=
  (calls.map fun e => callsFor e.2 r call).sum

/-- The calls of a record that is made -/
theorem callsFor_increfs (l : List Checksum) (r : Nat) (cs : Checksum) :
    callsFor (r, l.map CacheCall.increfRefholder) r (.increfRefholder cs) = l.count cs ∧
      callsFor (r, l.map CacheCall.increfRefholder) r (.decrefRefholder cs) = 0 := by
  unfold callsFor
  rw [if_pos rfl, if_pos rfl, List.count_eq_zero (a := CacheCall.decrefRefholder cs)]
  refine ⟨List.count_map_of_injective l _ (fun _ _ h => CacheCall.increfRefholder.inj h) cs, ?_⟩
  simp

/-- The calls of a record that gives claims back -/
theorem callsFor_decrefs (l : List Checksum) (r : Nat) (cs : Checksum) :
    callsFor (r, l.map CacheCall.decrefRefholder) r (.decrefRefholder cs) = l.count cs ∧
      callsFor (r, l.map CacheCall.decrefRefholder) r (.increfRefholder cs) = 0 := by
  unfold callsFor
  rw [if_pos rfl, if_pos rfl, List.count_eq_zero (a := CacheCall.increfRefholder cs)]
  refine ⟨List.count_map_of_injective l _ (fun _ _ h => CacheCall.decrefRefholder.inj h) cs, ?_⟩
  simp

/-- A record claims an input once, however often the call names it. -/
theorem nodup_eraseDups (l : List Checksum) : l.eraseDups.Nodup := by
  induction hn : l.length using Nat.strong_induction_on generalizing l with
  | _ n ih =>
    cases l with
    | nil => exact List.nodup_nil
    | cons c l =>
      rw [List.eraseDups_cons, List.nodup_cons]
      refine ⟨?_, ?_⟩
      · rw [List.mem_eraseDups]
        simp
      · have hle := List.length_filter_le (fun b => !b == c) l
        have hlen : (c :: l).length = l.length + 1 := rfl
        exact ih _ (by omega) _ rfl

/-- The claims of a record over one activity: what is given back and what is
left is no more than what was there and what is taken. -/
theorem step_within {s : Evaluations Member Checksum} (hs : s.Consistent)
    (a : Activity Member Checksum × (Checksum → Bool)) (r : Nat) (cs : Checksum) :
    callsFor (s.stepRun a).2 r (.decrefRefholder cs) +
        ((s.stepRun a).1.work r).inputClaims.count cs ≤
      (s.work r).inputClaims.count cs + callsFor (s.stepRun a).2 r (.increfRefholder cs) := by
  rcases (stepRun_keeps hs a).claims r with h | h | ⟨checksums, h⟩
  · rw [h.1, h.2, h.2]
    omega
  · obtain ⟨-, -, -, hclaims, hcalls⟩ := h
    -- what a release does not come to stays claimed, and nobody has it
    have hle := (giveBack_sublist a.2 (s.work r).inputClaims).count_le cs
    rw [hcalls, (callsFor_decrefs _ r cs).1, (callsFor_decrefs _ r cs).2, hclaims, List.count_nil]
    omega
  · obtain ⟨-, -, hclaims, hcalls⟩ := h
    rw [hcalls, (callsFor_increfs _ r cs).1, (callsFor_increfs _ r cs).2, hclaims]
    omega

/-- Where no release is cut short, it is as much. -/
theorem step_balanced {s : Evaluations Member Checksum} (hs : s.Consistent)
    {a : Activity Member Checksum × (Checksum → Bool)} (ha : s.Quiet a) (r : Nat) (cs : Checksum) :
    callsFor (s.stepRun a).2 r (.decrefRefholder cs) +
        ((s.stepRun a).1.work r).inputClaims.count cs =
      (s.work r).inputClaims.count cs + callsFor (s.stepRun a).2 r (.increfRefholder cs) := by
  rcases (stepRun_keeps hs a).claims r with h | h | ⟨checksums, h⟩
  · rw [h.1, h.2, h.2]
    omega
  · obtain ⟨hr, -, -, hclaims, hcalls⟩ := h
    have hall : (giveBack a.2 (s.work r).inputClaims).1 = (s.work r).inputClaims :=
      giveBack_all (ha r hr)
    rw [hcalls, (callsFor_decrefs _ r cs).1, (callsFor_decrefs _ r cs).2, hclaims, hall,
      List.count_nil, Nat.add_zero]
  · obtain ⟨hnew, -, hclaims, hcalls⟩ := h
    rw [hcalls, (callsFor_increfs _ r cs).1, (callsFor_increfs _ r cs).2, hclaims, hs.unmade r hnew,
      List.count_nil]

/-- Claims are given back by records whose work has ended. -/
theorem step_late {s : Evaluations Member Checksum} (hs : s.Consistent)
    {a : Activity Member Checksum × (Checksum → Bool)} {r : Nat} {cs : Checksum}
    (h : callsFor (s.stepRun a).2 r (.decrefRefholder cs) ≠ 0) : s.registry.Ended r := by
  rcases (stepRun_keeps hs a).claims r with hr | hr | ⟨checksums, hr⟩
  · exact absurd (hr.2 _) h
  · exact hr.2.2.1
  · rw [hr.2.2.2] at h
    exact absurd (callsFor_increfs _ r cs).2 h

/-- A record that was made claims nothing again. -/
theorem step_made {s : Evaluations Member Checksum} (hs : s.Consistent)
    (a : Activity Member Checksum × (Checksum → Bool)) {r : Nat} (hr : s.Made r) (cs : Checksum) :
    callsFor (s.stepRun a).2 r (.increfRefholder cs) = 0 := by
  rcases (stepRun_keeps hs a).claims r with h | h | ⟨checksums, h⟩
  · exact h.2 _
  · rw [h.2.2.2.2]
    exact (callsFor_decrefs _ r cs).2
  · exact absurd hr h.1

/-! ## §3. Runs of one key. -/

/-- The invariant over whole runs -/
theorem run_consistent {s : Evaluations Member Checksum} (hs : s.Consistent)
    (activities : List (Activity Member Checksum × (Checksum → Bool))) :
    (Run.exec stepRun s activities).Consistent :=
  Run.exec_invariant stepRun Consistent (fun _ a hs => (stepRun_keeps hs a).consistent) hs _

/-- In every run, no claim is given back more often than it was taken. -/
theorem claims_within {s : Evaluations Member Checksum} (hs : s.Consistent)
    (activities : List (Activity Member Checksum × (Checksum → Bool))) (r : Nat) (cs : Checksum) :
    callsOf (Run.trace stepRun s activities) r (.decrefRefholder cs) +
        ((Run.exec stepRun s activities).work r).inputClaims.count cs ≤
      (s.work r).inputClaims.count cs +
        callsOf (Run.trace stepRun s activities) r (.increfRefholder cs) := by
  induction activities generalizing s with
  | nil => exact Nat.le_of_eq (Nat.add_comm _ _)
  | cons a activities ih =>
    have hstep := step_within hs a r cs
    have hrest := ih (stepRun_keeps hs a).consistent
    unfold callsOf at hrest ⊢
    simp only [Run.trace, Run.exec, List.map_cons, List.sum_cons]
    omega

/-- Where no release is cut short, what was taken is there, or was given back. -/
theorem claims_balanced {s : Evaluations Member Checksum} (hs : s.Consistent)
    {activities : List (Activity Member Checksum × (Checksum → Bool))}
    (hquiet : Run.StepsMeet stepRun (fun _ => Quiet) s activities) (r : Nat) (cs : Checksum) :
    callsOf (Run.trace stepRun s activities) r (.decrefRefholder cs) +
        ((Run.exec stepRun s activities).work r).inputClaims.count cs =
      (s.work r).inputClaims.count cs +
        callsOf (Run.trace stepRun s activities) r (.increfRefholder cs) := by
  induction activities generalizing s with
  | nil => exact Nat.add_comm _ _
  | cons a activities ih =>
    obtain ⟨ha, hrest⟩ := hquiet.uncons stepRun
    have hstep := step_balanced hs ha r cs
    have hrun := ih (stepRun_keeps hs a).consistent hrest
    unfold callsOf at hrun ⊢
    simp only [Run.trace, Run.exec, List.map_cons, List.sum_cons]
    omega

/-- What happens to a record after it was made: it claims nothing, and once it has
no claims or is out of the maps, it stays so. -/
theorem run_made {s : Evaluations Member Checksum} (hs : s.Consistent)
    (activities : List (Activity Member Checksum × (Checksum → Bool))) {r : Nat} (hr : s.Made r) :
    (∀ cs, callsOf (Run.trace stepRun s activities) r (.increfRefholder cs) = 0) ∧
      ((s.work r).inputClaims = [] → ((Run.exec stepRun s activities).work r).inputClaims = []) ∧
      ((Run.exec stepRun s activities).registry.InMaps r → s.registry.InMaps r) := by
  induction activities generalizing s with
  | nil => exact ⟨fun _ => rfl, id, id⟩
  | cons a activities ih =>
    have hstep := stepRun_keeps hs a
    obtain ⟨hcalls, hclaims, hmaps⟩ := ih hstep.consistent (hstep.made r hr)
    refine ⟨fun cs => ?_, fun hnone => hclaims ?_, fun hin => hstep.maps r hr (hmaps hin)⟩
    · have hfirst := step_made hs a hr cs
      have hrest := hcalls cs
      unfold callsOf at hrest ⊢
      simp only [Run.trace, List.map_cons, List.sum_cons]
      omega
    · rcases hstep.claims r with h | h | ⟨checksums, h⟩
      · rw [h.1, hnone]
      · exact h.2.2.2.1
      · exact absurd hr h.1

/-- No call is made for a record that is not there. -/
theorem run_unmade {s : Evaluations Member Checksum} (hs : s.Consistent)
    (activities : List (Activity Member Checksum × (Checksum → Bool))) {r : Nat}
    (hr : ¬ (Run.exec stepRun s activities).Made r) (call : CacheCall Checksum) :
    ¬ s.Made r ∧ callsOf (Run.trace stepRun s activities) r call = 0 := by
  induction activities generalizing s with
  | nil => exact ⟨hr, rfl⟩
  | cons a activities ih =>
    have hstep := stepRun_keeps hs a
    obtain ⟨hnext, hrest⟩ := ih hstep.consistent hr
    have hnew : ¬ s.Made r := fun h => hnext (hstep.made r h)
    refine ⟨hnew, ?_⟩
    have hfirst : callsFor (s.stepRun a).2 r call = 0 := by
      rcases hstep.claims r with h | h | ⟨checksums, h⟩
      · exact h.2 call
      · exact absurd h.2.1 hnew
      · exact absurd h.2.1 hnext
    unfold callsOf at hrest ⊢
    simp only [Run.trace, List.map_cons, List.sum_cons]
    omega

/-- The calls of two runs, one after the other -/
theorem callsOf_append (m : Member)
    (before after : List (Activity Member Checksum × (Checksum → Bool))) (r : Nat)
    (call : CacheCall Checksum) :
    callsOf (Run.trace stepRun (initial m) (before ++ after)) r call =
      callsOf (Run.trace stepRun (initial m) before) r call +
        callsOf (Run.trace stepRun (Run.exec stepRun (initial m) before) after) r call := by
  unfold callsOf
  rw [Run.trace_append, List.map_append, List.sum_append]

/-- A record takes each of its claims once, when it is made. -/
theorem opened_once (m : Member)
    {before : List (Activity Member Checksum × (Checksum → Bool))}
    {a : Activity Member Checksum × (Checksum → Bool)} {r : Nat} {claims : List Checksum}
    (hopens : (Run.exec stepRun (initial m) before).Opens a.1 r claims)
    (rest : List (Activity Member Checksum × (Checksum → Bool))) (cs : Checksum) :
    callsOf (Run.trace stepRun (initial m) (before ++ a :: rest)) r (.increfRefholder cs) =
      if cs ∈ claims then 1 else 0 := by
  have hbefore : (Run.exec stepRun (initial m : Evaluations Member Checksum) before).Consistent :=
    run_consistent (initial_consistent m) before
  obtain ⟨hnew, hmade, -, hcalls⟩ := opens_takes hopens
  -- no call for the record before it was made, and no claim after that
  have hnone := (run_unmade (initial_consistent m) before hnew (.increfRefholder cs)).2
  have hrest := (run_made (stepRun_keeps hbefore a).consistent rest hmade).1 cs
  have hfirst : callsFor ((Run.exec stepRun (initial m) before).stepRun a).2 r
      (.increfRefholder cs) = claims.eraseDups.count cs := by
    rw [hcalls]
    exact (callsFor_increfs _ r cs).1
  have hcount : claims.eraseDups.count cs = if cs ∈ claims then 1 else 0 := by
    rw [List.Nodup.count (nodup_eraseDups claims)]
    simp only [List.mem_eraseDups]
  rw [callsOf_append, hnone]
  unfold callsOf at hrest ⊢
  rw [Run.trace, List.map_cons, List.sum_cons, hrest, hfirst, hcount]
  omega

/-- A completed record has no claims left and is in neither map, for good. -/
theorem completed_forever (m : Member)
    {before : List (Activity Member Checksum × (Checksum → Bool))}
    {a : Activity Member Checksum × (Checksum → Bool)} {r : Nat}
    (hends : (Run.exec stepRun (initial m) before).Completes r a.1)
    (rest : List (Activity Member Checksum × (Checksum → Bool))) :
    ((Run.exec stepRun (initial m) (before ++ a :: rest)).work r).inputClaims = [] ∧
      ¬ (Run.exec stepRun (initial m) (before ++ a :: rest)).registry.InMaps r := by
  have hbefore : (Run.exec stepRun (initial m : Evaluations Member Checksum) before).Consistent :=
    run_consistent (initial_consistent m) before
  have hstep := stepRun_keeps hbefore a
  obtain ⟨hmade, hclaims, hmaps⟩ := completes_ends hends
  obtain ⟨-, hnone, hin⟩ := run_made hstep.consistent rest (hstep.made r hmade)
  rw [Run.exec_append]
  exact ⟨hnone hclaims, fun h => hmaps (hin h)⟩

/-! ## §4. All keys. -/

variable {Key : Type} [DecidableEq Key]

/-- The calls of one kind that a run made for a record -/
def callsIn (m : Member) (activities : List (Key × Activity Member Checksum × (Checksum → Bool)))
    (k : Key) (r : Nat) (call : CacheCall Checksum) : Nat :=
  callsOf (Run.traceOf k (historyRun m activities)) r call

/-- A key runs on its own activities. -/
theorem afterRun_eq (m : Member)
    (activities : List (Key × Activity Member Checksum × (Checksum → Bool))) (k : Key) :
    afterRun m activities k = Run.exec stepRun (initial m) (Run.inputsOf k activities) :=
  Run.exec_keyed stepRun _ activities k

/-- Its calls are those of the run of the key. -/
theorem callsIn_eq (m : Member)
    (activities : List (Key × Activity Member Checksum × (Checksum → Bool))) (k : Key) (r : Nat)
    (call : CacheCall Checksum) :
    callsIn m activities k r call =
      callsOf (Run.trace stepRun (initial m) (Run.inputsOf k activities)) r call := by
  unfold callsIn historyRun
  rw [Run.trace_keyed]

/-- In every run where no release is cut short before the last claim of its record, at every
key: the unfinished evaluations that are filed are one record at most, in one map; a
record takes each of its claims once, when it is made; it gives none back more than
once, or before its work has ended; and once it has completed it has given back
each and is in neither map. -/
theorem registryDiscipline (m : Member)
    (activities : List (Key × Activity Member Checksum × (Checksum → Bool)))
    (hquiet : Run.StepsMeet (Run.keyed stepRun) (fun _ s a => (s a.1).Quiet a.2)
      (fun _ => initial m) activities) (k : Key) :
    (∀ r r', (afterRun m activities k).registry.InMaps r →
      (afterRun m activities k).registry.InMaps r' →
      ¬ (afterRun m activities k).registry.Ended r →
      ¬ (afterRun m activities k).registry.Ended r' → r = r') ∧
    (∀ r, ¬ ((afterRun m activities k).registry.active = some r ∧
      (afterRun m activities k).registry.lingering = some r)) ∧
    (∀ before a rest r claims, activities = before ++ (k, a) :: rest →
      (afterRun m before k).Opens a.1 r claims → ∀ cs,
        callsIn m activities k r (.increfRefholder cs) = if cs ∈ claims then 1 else 0) ∧
    (∀ r cs, callsIn m activities k r (.decrefRefholder cs) ≤
      callsIn m activities k r (.increfRefholder cs)) ∧
    (∀ before a rest r cs, activities = before ++ (k, a) :: rest →
      callsFor ((afterRun m before k).stepRun a).2 r (.decrefRefholder cs) ≠ 0 →
        (afterRun m before k).registry.Ended r) ∧
    ∀ before a rest r, activities = before ++ (k, a) :: rest →
      (afterRun m before k).Completes r a.1 →
        (∀ cs, callsIn m activities k r (.decrefRefholder cs) =
          callsIn m activities k r (.increfRefholder cs)) ∧
        ¬ (afterRun m activities k).registry.InMaps r := by
  have hs : (afterRun m activities k).Consistent := by
    rw [afterRun_eq]
    exact run_consistent (initial_consistent m) _
  refine ⟨?_, ?_, ?_, ?_, ?_, ?_⟩
  · intro r r' hr hr' _ _
    exact Registry.inMaps_unique hs.single hr hr'
  · rintro r ⟨hactive, hlingering⟩
    rcases hs.single with h | h
    · rw [hactive] at h
      cases h
    · rw [hlingering] at h
      cases h
  · intro before a rest r claims heq hopens cs
    rw [afterRun_eq] at hopens
    rw [callsIn_eq, heq, Run.inputsOf_at]
    exact opened_once m hopens _ cs
  · intro r cs
    have hwithin := claims_within (initial_consistent m) (Run.inputsOf k activities) r cs
    rw [callsIn_eq, callsIn_eq]
    have hnone : ((initial m : Evaluations Member Checksum).work r).inputClaims.count cs = 0 := rfl
    omega
  · intro before a rest r cs _ hrelease
    rw [afterRun_eq] at hrelease ⊢
    exact step_late (run_consistent (initial_consistent m) _) hrelease
  · intro before a rest r heq hends
    rw [afterRun_eq] at hends
    have hforever := completed_forever m hends (Run.inputsOf k rest)
    rw [← Run.inputsOf_at, ← heq, ← afterRun_eq] at hforever
    refine ⟨fun cs => ?_, hforever.2⟩
    -- no claims are left, so what was taken was given back
    have hbalanced := claims_balanced (initial_consistent m) (hquiet.keyed stepRun k) r cs
    have hnone : ((initial m : Evaluations Member Checksum).work r).inputClaims.count cs = 0 := rfl
    rw [← afterRun_eq, hforever.1, List.count_nil] at hbalanced
    rw [callsIn_eq, callsIn_eq]
    omega

/-- A celljoin over two inputs that two calls share, whose task has ended -/
def sharedCelljoin : List (Unit × Activity Nat Nat × (Nat → Bool)) :=
  [((), .joinLocal 1 [7, 8], fun _ => false), ((), .joinLocal 2 [7, 8], fun _ => false),
    ((), .event (.settleTask 0 false), fun _ => false),
    ((), .event (.finishTask 0), fun _ => false)]

/-- Its completion callback, where the claim on `cs` raises when it is given back -/
def discardFading (cs : Nat) : Unit × Activity Nat Nat × (Nat → Bool) :=
  ((), .event (.discard 0), fun c => c == cs)

/-- The second claim raises: both were taken once, both are given back, and the record is
in neither map. -/
theorem sharedCelljoin_disciplined :
    callsIn 0 (sharedCelljoin ++ [discardFading 8]) () 0 (.increfRefholder 8) = 1 ∧
      callsIn 0 (sharedCelljoin ++ [discardFading 8]) () 0 (.decrefRefholder 8) = 1 ∧
      ¬ (afterRun 0 (sharedCelljoin ++ [discardFading 8]) ()).registry.InMaps 0 := by
  have hquiet : Run.StepsMeet (Run.keyed stepRun) (fun _ s a => (s a.1).Quiet a.2)
      (fun _ => initial 0) (sharedCelljoin ++ [discardFading 8]) := by
    refine (((((Run.StepsMeet.nil _ _ _).snoc _ ?_).snoc _ ?_).snoc _ ?_).snoc _ ?_).snoc _ ?_
    · exact fun _ h => by cases h
    · exact fun _ h => by cases h
    · exact fun _ h => by cases h
    · exact fun _ h => by cases h
    · intro r hr
      rw [← Option.some.inj hr]
      decide
  obtain ⟨-, -, htaken, -, -, hdone⟩ := registryDiscipline 0 _ hquiet ()
  have htake := htaken [] _ _ 0 [7, 8] rfl ⟨rfl, rfl, fun _ h => by cases h⟩ 8
  obtain ⟨hgiven, hmaps⟩ := hdone sharedCelljoin _ [] 0 rfl ⟨rfl, by decide, by decide⟩
  rw [if_pos (by decide)] at htake
  exact ⟨htake, (hgiven 8).trans htake, hmaps⟩

/-- The first claim raises: the second one was taken, and is not given back by the
completed record. -/
theorem discard_leaves_claims :
    (afterRun 0 sharedCelljoin ()).Completes 0 (discardFading 7).2.1 ∧
      callsIn 0 (sharedCelljoin ++ [discardFading 7]) () 0 (.increfRefholder 8) = 1 ∧
      callsIn 0 (sharedCelljoin ++ [discardFading 7]) () 0 (.decrefRefholder 8) = 0 := by
  exact ⟨⟨rfl, by decide, by decide⟩, by decide, by decide⟩

end Evaluations

end SeamlessCore.Expression
