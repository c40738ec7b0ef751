/-
  Run — runs of a deterministic machine with outputs.

  A machine is a step function `step : S → I → S × O`.  The file defines the
  state after a list of inputs and the trace of inputs with their outputs,
  and packages the inductions every development over such a machine needs.

  Main results:
    * `exec_invariant` — what every step preserves holds in every state;
    * `exec_traced_invariant` — the same for an invariant that may speak of
      the trace so far, and for steps that meet a condition on it;
    * `forall_trace_iff` — what all outputs of a run have, from what one has;
    * `Reaches` — some inputs of a kind can lead to a property;
    * `exec_ledger` — a quantity that every step changes by a known amount
      equals its initial value plus the sum of these amounts;
    * `exec_keyed`, `trace_keyed` — a family of machines, one for each key, runs
      each of them on its own inputs;
    * `runs_refine` — machines whose steps agree in related states agree on runs.
-/
import Mathlib

namespace Run

variable {S I O : Type}

/-! ## §1. States and traces. -/

/-- The state after the inputs. -/
def exec (step : S → I → S × O) : S → List I → S
  | s, [] => s
  | s, i :: is => exec step (step s i).1 is

/-- The inputs with their outputs. -/
def trace (step : S → I → S × O) : S → List I → List (I × O)
  | _, [] => []
  | s, i :: is => (i, (step s i).2) :: trace step (step s i).1 is

variable (step : S → I → S × O)

theorem exec_append (s : S) (is js : List I) :
    exec step s (is ++ js) = exec step (exec step s is) js := by
  induction is generalizing s with
  | nil => rfl
  | cons i is ih => exact ih (step s i).1

theorem trace_append (s : S) (is js : List I) :
    trace step s (is ++ js) = trace step s is ++ trace step (exec step s is) js := by
  induction is generalizing s with
  | nil => rfl
  | cons i is ih =>
    show (i, (step s i).2) :: trace step (step s i).1 (is ++ js) = _
    rw [ih]
    rfl

theorem exec_snoc (s : S) (is : List I) (i : I) :
    exec step s (is ++ [i]) = (step (exec step s is) i).1 := by
  rw [exec_append]
  rfl

theorem trace_snoc (s : S) (is : List I) (i : I) :
    trace step s (is ++ [i]) = trace step s is ++ [(i, (step (exec step s is) i).2)] := by
  rw [trace_append]
  rfl

/-- A call of the trace is a step of the run. -/
theorem mem_trace {s : S} {is : List I} {call : I × O} (h : call ∈ trace step s is) :
    ∃ before i after, is = before ++ i :: after ∧
      call = (i, (step (exec step s before) i).2) := by
  induction is generalizing s with
  | nil => cases h
  | cons j is ih =>
    rcases List.mem_cons.mp h with rfl | h
    · exact ⟨[], j, is, rfl, rfl⟩
    · obtain ⟨before, i, after, heq, hcall⟩ := ih h
      refine ⟨j :: before, i, after, ?_, hcall⟩
      rw [heq]
      rfl

/-! ## §2. Invariants. -/

/-- An invariant of the steps is an invariant of the runs. -/
theorem exec_invariant (Inv : S → Prop) (hstep : ∀ s i, Inv s → Inv (step s i).1)
    {s : S} (hs : Inv s) (is : List I) : Inv (exec step s is) := by
  induction is generalizing s with
  | nil => exact hs
  | cons i is ih => exact ih (hstep s i hs)

/-- Every step of the run meets the condition `ok` on the trace and the state
it starts from. -/
def StepsMeet (ok : List (I × O) → S → I → Prop) (s : S) (is : List I) : Prop :=
  ∀ before i after, is = before ++ i :: after →
    ok (trace step s before) (exec step s before) i

theorem StepsMeet.init {ok : List (I × O) → S → I → Prop} {s : S} {is : List I} {i : I}
    (h : StepsMeet step ok s (is ++ [i])) : StepsMeet step ok s is := by
  intro before j after heq
  refine h before j (after ++ [i]) ?_
  rw [heq]
  simp

theorem StepsMeet.nil (ok : List (I × O) → S → I → Prop) (s : S) : StepsMeet step ok s [] := by
  intro before i after heq
  simp at heq

/-- One more step that meets the condition. -/
theorem StepsMeet.snoc {ok : List (I × O) → S → I → Prop} {s : S} {is : List I} {i : I}
    (h : StepsMeet step ok s is) (hi : ok (trace step s is) (exec step s is) i) :
    StepsMeet step ok s (is ++ [i]) := by
  intro before j after heq
  -- the step that is looked at is the new one, or one of the old ones
  cases after using List.reverseRecOn with
  | nil =>
    obtain ⟨hbefore, hj⟩ := List.append_inj' heq rfl
    rw [← hbefore, ← List.head_eq_of_cons_eq hj]
    exact hi
  | append_singleton after k =>
    have hsplit : is ++ [i] = (before ++ j :: after) ++ [k] := by
      rw [heq]
      simp
    exact h before j after (List.append_inj' hsplit rfl).1

/-- One more first step, for a condition on the state alone. -/
theorem StepsMeet.cons {ok : S → I → Prop} {s : S} {i : I} {is : List I} (hi : ok s i)
    (h : StepsMeet step (fun _ => ok) (step s i).1 is) :
    StepsMeet step (fun _ => ok) s (i :: is) := by
  intro before j after heq
  cases before with
  | nil =>
    rw [List.nil_append] at heq
    rw [← List.head_eq_of_cons_eq heq]
    exact hi
  | cons k before =>
    obtain ⟨hk, htail⟩ := List.cons_eq_cons.mp heq
    rw [← hk]
    exact h before j after htail

theorem StepsMeet.uncons {ok : S → I → Prop} {s : S} {i : I} {is : List I}
    (h : StepsMeet step (fun _ => ok) s (i :: is)) :
    ok s i ∧ StepsMeet step (fun _ => ok) (step s i).1 is := by
  constructor
  · exact h [] i is rfl
  · intro before j after heq
    refine h (i :: before) j after ?_
    rw [heq]
    rfl

/-- A property of the outputs that every step from a state of the invariant has
exactly if it meets a condition: the whole trace has it exactly if all steps do. -/
theorem forall_trace_iff (Inv : S → Prop) (ok : S → I → Prop) (P : O → Prop)
    (hinv : ∀ s i, Inv s → Inv (step s i).1)
    (hstep : ∀ s i, Inv s → (P (step s i).2 ↔ ok s i)) {s : S} (hs : Inv s) (is : List I) :
    (∀ call ∈ trace step s is, P call.2) ↔ StepsMeet step (fun _ => ok) s is := by
  induction is generalizing s with
  | nil =>
    constructor
    · intro _
      exact StepsMeet.nil step _ s
    · intro _ call hcall
      cases hcall
  | cons i is ih =>
    have htail := ih (hinv s i hs)
    constructor
    · intro h
      obtain ⟨hi, hrest⟩ := List.forall_mem_cons.mp h
      exact StepsMeet.cons step ((hstep s i hs).mp hi) (htail.mp hrest)
    · intro h
      obtain ⟨hi, hrest⟩ := h.uncons step
      exact List.forall_mem_cons.mpr ⟨(hstep s i hs).mpr hi, htail.mpr hrest⟩

/-- An invariant of trace and state, preserved by the steps that meet a
condition, holds after every run whose steps all meet it. -/
theorem exec_traced_invariant (ok : List (I × O) → S → I → Prop)
    (Inv : List (I × O) → S → Prop) {s : S} (hinit : Inv [] s)
    (hstep : ∀ tr s i, Inv tr s → ok tr s i → Inv (tr ++ [(i, (step s i).2)]) (step s i).1)
    (is : List I) (hok : StepsMeet step ok s is) :
    Inv (trace step s is) (exec step s is) := by
  -- on the last step: the condition may speak of the trace before it
  induction is using List.reverseRecOn with
  | nil => exact hinit
  | append_singleton is i ih =>
    rw [trace_snoc, exec_snoc]
    apply hstep
    · exact ih (hok.init step)
    · exact hok is i [] rfl

/-- Inputs of one kind can lead to a state with the property. -/
def Reaches (own : I → Prop) (goal : S → Prop) (s : S) : Prop :=
  ∃ is, (∀ i ∈ is, own i) ∧ goal (exec step s is)

theorem Reaches.next {own : I → Prop} {goal : S → Prop} {s : S} (i : I) (hi : own i)
    (h : Reaches step own goal (step s i).1) : Reaches step own goal s := by
  obtain ⟨is, his, hgoal⟩ := h
  exact ⟨i :: is, List.forall_mem_cons.mpr ⟨hi, his⟩, hgoal⟩

theorem Reaches.trans {own : I → Prop} {mid goal : S → Prop} {s : S}
    (h : Reaches step own mid s) (hmid : ∀ s', mid s' → Reaches step own goal s') :
    Reaches step own goal s := by
  obtain ⟨is, his, hs⟩ := h
  obtain ⟨js, hjs, hgoal⟩ := hmid _ hs
  -- the two runs, one after the other
  refine ⟨is ++ js, ?_, ?_⟩
  · intro i hi
    rcases List.mem_append.mp hi with hi | hi
    · exact his i hi
    · exact hjs i hi
  · rw [exec_append]
    exact hgoal

/-! ## §3. Ledgers. -/

/-- If every step from a state of the invariant changes `level` by the entry
`delta` of its input and output, then `level` is its initial value plus the
entries of the trace. -/
theorem exec_ledger {A : Type} [AddCommMonoid A] (Inv : S → Prop) (level : S → A)
    (delta : I × O → A) (hinv : ∀ s i, Inv s → Inv (step s i).1)
    (hstep : ∀ s i, Inv s → level (step s i).1 = level s + delta (i, (step s i).2))
    {s : S} (hs : Inv s) (is : List I) :
    level (exec step s is) = level s + ((trace step s is).map delta).sum := by
  induction is generalizing s with
  | nil => simp [exec, trace]
  | cons i is ih =>
    show level (exec step (step s i).1 is) = _
    rw [ih (hinv s i hs), hstep s i hs]
    rw [trace, List.map_cons, List.sum_cons, add_assoc]

/-! ## §4. Families of machines. -/

variable {K : Type} [DecidableEq K]

/-- The machine of every key, and inputs that name their key. -/
def keyed (s : K → S) (i : K × I) : (K → S) × O :=
  (Function.update s i.1 (step (s i.1) i.2).1, (step (s i.1) i.2).2)

/-- The inputs of one key. -/
def inputsOf (k : K) (is : List (K × I)) : List I :=
  is.filterMap fun i => if i.1 = k then some i.2 else none

theorem inputsOf_cons (k : K) (i : K × I) (is : List (K × I)) :
    inputsOf k (i :: is) = if i.1 = k then i.2 :: inputsOf k is else inputsOf k is := by
  by_cases h : i.1 = k
  · simp [inputsOf, h]
  · simp [inputsOf, h]

theorem inputsOf_append (k : K) (is js : List (K × I)) :
    inputsOf k (is ++ js) = inputsOf k is ++ inputsOf k js := List.filterMap_append

/-- An input of the key stands at its place among the inputs of the key. -/
theorem inputsOf_at (k : K) (before after : List (K × I)) (i : I) :
    inputsOf k (before ++ (k, i) :: after) = inputsOf k before ++ i :: inputsOf k after := by
  rw [inputsOf_append, inputsOf_cons, if_pos rfl]

/-- The part of a trace that is about one key. -/
def traceOf (k : K) (tr : List ((K × I) × O)) : List (I × O) :=
  tr.filterMap fun e => if e.1.1 = k then some (e.1.2, e.2) else none

theorem traceOf_cons (k : K) (e : (K × I) × O) (tr : List ((K × I) × O)) :
    traceOf k (e :: tr) = if e.1.1 = k then (e.1.2, e.2) :: traceOf k tr else traceOf k tr := by
  by_cases h : e.1.1 = k
  · simp [traceOf, h]
  · simp [traceOf, h]

/-- Every machine runs on its own inputs. -/
theorem exec_keyed (s : K → S) (is : List (K × I)) (k : K) :
    exec (keyed step) s is k = exec step (s k) (inputsOf k is) := by
  induction is generalizing s with
  | nil => rfl
  | cons i is ih =>
    show exec (keyed step) (Function.update s i.1 (step (s i.1) i.2).1) is k = _
    rw [ih, inputsOf_cons]
    -- a step of another key leaves this machine where it is
    by_cases h : i.1 = k
    · rw [if_pos h, ← h, Function.update_self]
      rfl
    · rw [if_neg h, Function.update_of_ne (fun hk => h hk.symm)]

/-- The trace of a machine is its part of the trace of the family. -/
theorem trace_keyed (s : K → S) (is : List (K × I)) (k : K) :
    traceOf k (trace (keyed step) s is) = trace step (s k) (inputsOf k is) := by
  induction is generalizing s with
  | nil => rfl
  | cons i is ih =>
    show traceOf k ((i, (step (s i.1) i.2).2) ::
      trace (keyed step) (Function.update s i.1 (step (s i.1) i.2).1) is) = _
    rw [traceOf_cons, inputsOf_cons, ih]
    by_cases h : i.1 = k
    · rw [if_pos h, if_pos h, ← h, Function.update_self]
      rfl
    · rw [if_neg h, if_neg h, Function.update_of_ne (fun hk => h hk.symm)]

/-- A condition that all steps of the family meet is met by the steps of each. -/
theorem StepsMeet.keyed {ok : S → I → Prop} {s : K → S} {is : List (K × I)}
    (h : StepsMeet (keyed step) (fun _ s i => ok (s i.1) i.2) s is) (k : K) :
    StepsMeet step (fun _ => ok) (s k) (inputsOf k is) := by
  induction is generalizing s with
  | nil => exact StepsMeet.nil step _ _
  | cons i is ih =>
    obtain ⟨hi, hrest⟩ := h.uncons (Run.keyed step)
    have hk : StepsMeet step (fun _ => ok) (Function.update s i.1 (step (s i.1) i.2).1 k)
        (inputsOf k is) := ih hrest
    rw [inputsOf_cons]
    by_cases h : i.1 = k
    · rw [← h, Function.update_self] at hk
      rw [if_pos h, ← h]
      exact hk.cons step hi
    · rw [Function.update_of_ne fun heq => h heq.symm] at hk
      rw [if_neg h]
      exact hk

/-! ## §5. Two machines. -/

/-- If related states give the same output and related states, so do whole runs. -/
theorem runs_refine {T : Type} (step : S → I → S × O) (step' : T → I → T × O) (R : S → T → Prop)
    (hstep : ∀ s t i, R s t → (step s i).2 = (step' t i).2 ∧ R (step s i).1 (step' t i).1)
    (is : List I) : ∀ s t, R s t →
      trace step s is = trace step' t is ∧ R (exec step s is) (exec step' t is) := by
  induction is with
  | nil => exact fun s t h => ⟨rfl, h⟩
  | cons i is ih =>
    intro s t h
    obtain ⟨hout, hnext⟩ := hstep s t i h
    obtain ⟨htrace, hend⟩ := ih _ _ hnext
    refine ⟨?_, hend⟩
    show (i, (step s i).2) :: trace step (step s i).1 is = _
    rw [hout, htrace]
    rfl

end Run
