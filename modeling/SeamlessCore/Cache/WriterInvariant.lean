/-
  SeamlessCore.Cache.WriterInvariant — what holds of the writer in every run.

  What is pending is an entry; what is flagged as queued and pending is in the
  hands of a worker; a worker that is not in its loop holds nothing.  The
  steps come in few shapes: a worker moves on, a worker takes up entries, the
  entries and their objects are settled.  Each shape is shown once to keep the
  invariant, and each step to have its shape.

  Main results:
    * `setWorker_sound`, `admits_sound`, `settles_sound` — the shapes;
    * `step_sound`, `after_sound` — every step, and every run.
-/
import SeamlessCore.Cache.BufferWriter

namespace SeamlessCore.BufferWriter

variable {K : Type} [DecidableEq K]

open Writer

/-! ## §1. The hands of a worker. -/

/-- The entries that a worker holds: in its queue, promised and in flight. -/
def hand (w : Worker) : List Nat := w.queue.filterMap id ++ w.promising.toList ++ w.inflight

/-- The entries that a worker is processing. -/
def processing (w : Worker) : List Nat := w.promising.toList ++ w.inflight

/-- What a worker processes is in its hands. -/
theorem processing_count (w : Worker) (e : Nat) : (processing w).count e ≤ (hand w).count e := by
  unfold processing hand
  rw [List.count_append, List.count_append, List.count_append]
  omega

/-- The three places of an entry in the hands of a worker -/
theorem mem_hand {w : Worker} {e : Nat} :
    e ∈ hand w ↔ some e ∈ w.queue ∨ w.promising = some e ∨ e ∈ w.inflight := by
  unfold hand
  simp

/-! ## §2. Reading an updated state. -/

omit [DecidableEq K] in
/-- The workers after one of them was changed -/
theorem getElem?_setWorker {s : Writer K} {g : Nat} {w : Worker} (hw : s.workers[g]? = some w)
    (w' : Worker) (g' : Nat) :
    (s.setWorker g w').workers[g']? = if g' = g then some w' else s.workers[g']? := by
  obtain ⟨hg, -⟩ := List.getElem?_eq_some_iff.mp hw
  show (s.workers.set g w')[g']? = _
  by_cases heq : g' = g
  · rw [if_pos heq, heq, List.getElem?_set_self hg]
  · rw [if_neg heq, List.getElem?_set_ne (Ne.symm heq)]

omit [DecidableEq K] in
/-- A worker after one of them was changed -/
theorem setWorker_cases {s : Writer K} {g : Nat} {w : Worker} (hw : s.workers[g]? = some w)
    {w' v : Worker} {g' : Nat} (hv : (s.setWorker g w').workers[g']? = some v) :
    g' = g ∧ v = w' ∨ g' ≠ g ∧ s.workers[g']? = some v := by
  rw [getElem?_setWorker hw] at hv
  by_cases heq : g' = g
  · rw [if_pos heq, Option.some.injEq] at hv
    exact Or.inl ⟨heq, hv.symm⟩
  · rw [if_neg heq] at hv
    exact Or.inr ⟨heq, hv⟩

omit [DecidableEq K] in
/-- The objects after one of them was changed -/
theorem getElem?_updateObject (s : Writer K) (e : Nat) (f : QueueEntry K → QueueEntry K) (j : Nat) :
    (s.updateObject e f).objects[j]? = (s.objects[j]?).map fun o => if j = e then f o else o := by
  show (s.objects.modify e f)[j]? = _
  rw [List.getElem?_modify]
  by_cases heq : j = e
  · simp [heq]
  · simp [heq, Ne.symm heq]

/-! ## §3. The invariant of all runs. -/

/-- What holds in every run -/
structure Sound (s : Writer K) : Prop where
  keyed : ∀ k e, s.entries.lookup k = some e → ∃ o, s.objects[e]? = some o ∧ o.key = k
  pendingKept : ∀ e o, s.objects[e]? = some o → o.future = .pending →
    s.entries.lookup o.key = some e
  /-- An entry that is done but kept is a buffer whose write raised. -/
  heldOpen : ∀ k e o, s.entries.lookup k = some e → s.objects[e]? = some o →
    o.future = .pending ∨ o.future = .exception ∧ o.metadata = false
  tracked : ∀ e o, s.objects[e]? = some o → o.queued = true → o.future = .pending →
    ∃ (g : Nat) (w : Worker), s.workers[g]? = some w ∧ w.loops = true ∧ e ∈ hand w
  known : ∀ (g : Nat) (w : Worker) (e : Nat), s.workers[g]? = some w → e ∈ hand w →
    e < s.objects.length
  idle : ∀ (g : Nat) (w : Worker), s.workers[g]? = some w → w.loops = false →
    w.queue = [] ∧ w.promising = none ∧ w.inflight = []
  stopped : ∀ (g : Nat) (w : Worker), s.workers[g]? = some w → w.status = .stopping →
    w.promising = none
  loopLive : ∀ g, s.loop = some g → ∃ w : Worker, s.workers[g]? = some w ∧ w.loops = true
  threadKnown : ∀ g, s.thread = some g → ∃ w : Worker, s.workers[g]? = some w
  threadLoop : ∀ (g : Nat) (w : Worker), s.thread = some g → s.workers[g]? = some w →
    w.loops = true → s.loop.isSome = true

/-- A new writer has no entries and no workers. -/
theorem initial_sound : Sound (initial : Writer K) := by
  refine ⟨?_, ?_, ?_, ?_, ?_, ?_, ?_, ?_, ?_, ?_⟩ <;> intros <;> simp_all [initial]

/-- A worker moves on: it takes up no new entry, and what it lets go of is
done. -/
structure Moves (s : Writer K) (w w' : Worker) : Prop where
  loops : w'.loops = w.loops
  closed : w'.status = .closed → w.status = .closed
  stopped : w'.status = .stopping → w'.promising = none
  idle : w'.loops = false → w'.queue = [] ∧ w'.promising = none ∧ w'.inflight = []
  count : ∀ e, (hand w').count e ≤ (hand w).count e
  lost : ∀ e o, e ∈ hand w → e ∉ hand w' → s.objects[e]? = some o → o.future ≠ .pending

omit [DecidableEq K] in
/-- What a worker holds after a move it held before. -/
theorem Moves.mem {s : Writer K} {w w' : Worker} (h : Moves s w w') {e : Nat}
    (he : e ∈ hand w') : e ∈ hand w := by
  have hpos := List.count_pos_iff.mpr he
  have hle := h.count e
  exact List.count_pos_iff.mp (by omega)

/-- The first shape: one worker moves on, and nothing else changes. -/
theorem setWorker_sound {s : Writer K} (h : Sound s) {g : Nat} {w w' : Worker}
    (hw : s.workers[g]? = some w) (hm : Moves s w w') : Sound (s.setWorker g w') := by
  refine ⟨h.keyed, h.pendingKept, h.heldOpen, ?_, ?_, ?_, ?_, ?_, ?_, ?_⟩
  · intro e o ho hqueued hpending
    -- an entry that the worker lets go of is done, so a pending one is still in hand
    obtain ⟨g', v, hv, hvloops, hve⟩ := h.tracked e o ho hqueued hpending
    by_cases heq : g' = g
    · rw [heq, hw, Option.some.injEq] at hv
      refine ⟨g, w', by rw [getElem?_setWorker hw, if_pos rfl], by rw [hm.loops, hv, hvloops], ?_⟩
      by_contra hlost
      exact hm.lost e o (hv ▸ hve) hlost ho hpending
    · exact ⟨g', v, by rw [getElem?_setWorker hw, if_neg heq, hv], hvloops, hve⟩
  · intro g' v e hv he
    rcases setWorker_cases hw hv with ⟨-, rfl⟩ | ⟨-, hv⟩
    · exact h.known g w e hw (hm.mem he)
    · exact h.known g' v e hv he
  · intro g' v hv hvloops
    rcases setWorker_cases hw hv with ⟨-, rfl⟩ | ⟨-, hv⟩
    · exact hm.idle hvloops
    · exact h.idle g' v hv hvloops
  · intro g' v hv hstop
    rcases setWorker_cases hw hv with ⟨-, rfl⟩ | ⟨-, hv⟩
    · exact hm.stopped hstop
    · exact h.stopped g' v hv hstop
  · intro g' hg'
    obtain ⟨v, hv, hvloops⟩ := h.loopLive g' hg'
    by_cases heq : g' = g
    · rw [heq, hw, Option.some.injEq] at hv
      exact ⟨w', by rw [getElem?_setWorker hw, if_pos heq], by rw [hm.loops, hv, hvloops]⟩
    · exact ⟨v, by rw [getElem?_setWorker hw, if_neg heq, hv], hvloops⟩
  · intro g' hg'
    obtain ⟨v, hv⟩ := h.threadKnown g' hg'
    by_cases heq : g' = g
    · exact ⟨w', by rw [getElem?_setWorker hw, if_pos heq]⟩
    · exact ⟨v, by rw [getElem?_setWorker hw, if_neg heq, hv]⟩
  · intro g' v hthread hv hvloops
    rcases setWorker_cases hw hv with ⟨heq, rfl⟩ | ⟨-, hv⟩
    · exact h.threadLoop g' w hthread (heq ▸ hw) (by rw [← hm.loops, hvloops])
    · exact h.threadLoop g' v hthread hv hvloops

omit [DecidableEq K] in
/-- An update of the objects keeps their number. -/
theorem length_of_update {objects objects' : List (QueueEntry K)}
    {φ : Nat → QueueEntry K → QueueEntry K}
    (hobjects : ∀ e : Nat, objects'[e]? = (objects[e]?).map (φ e)) :
    objects'.length = objects.length := by
  have hsame : ∀ e : Nat, objects'.length ≤ e ↔ objects.length ≤ e := by
    intro e
    rw [← List.getElem?_eq_none_iff, ← List.getElem?_eq_none_iff, hobjects,
      Option.map_eq_none_iff]
  exact Nat.le_antisymm ((hsame _).mpr le_rfl) ((hsame _).mp le_rfl)

/-- The entries and their objects change: what is kept was kept, what is
pending was pending and stays an entry. -/
structure Settles (s : Writer K) (entries : Dict K Nat)
    (φ : Nat → QueueEntry K → QueueEntry K) : Prop where
  key : ∀ e o, (φ e o).key = o.key ∧ (φ e o).metadata = o.metadata
  kept : ∀ k e, entries.lookup k = some e → s.entries.lookup k = some e
  pending : ∀ e o, s.objects[e]? = some o → (φ e o).future = .pending →
    o.future = .pending ∧ (s.entries.lookup o.key = some e → entries.lookup o.key = some e)
  heldOpen : ∀ k e o, entries.lookup k = some e → s.objects[e]? = some o →
    (φ e o).future = .pending ∨ (φ e o).future = .exception ∧ o.metadata = false
  queued : ∀ e o, s.objects[e]? = some o → (φ e o).queued = true → o.queued = true

/-- The second shape: the entries are settled, and no worker moves. -/
theorem settles_sound {s : Writer K} (h : Sound s) {entries : Dict K Nat}
    {φ : Nat → QueueEntry K → QueueEntry K} (hφ : Settles s entries φ)
    {objects : List (QueueEntry K)}
    (hobjects : ∀ e : Nat, objects[e]? = (s.objects[e]?).map (φ e)) :
    Sound { s with entries := entries, objects := objects } := by
  have hget : ∀ e o', objects[e]? = some o' → ∃ o, s.objects[e]? = some o ∧ φ e o = o' := by
    intro e o' ho'
    rw [hobjects] at ho'
    exact Option.map_eq_some_iff.mp ho'
  refine ⟨?_, ?_, ?_, ?_, ?_, h.idle, h.stopped, h.loopLive, h.threadKnown, h.threadLoop⟩
  · intro k e hk
    obtain ⟨o, ho, hkey⟩ := h.keyed k e (hφ.kept k e hk)
    exact ⟨φ e o, by rw [hobjects, ho, Option.map_some], by rw [(hφ.key e o).1, hkey]⟩
  · intro e o' ho' hpending
    obtain ⟨o, ho, rfl⟩ := hget e o' ho'
    -- what is pending was pending before, and was an entry then
    obtain ⟨hold, hstays⟩ := hφ.pending e o ho hpending
    rw [(hφ.key e o).1]
    exact hstays (h.pendingKept e o ho hold)
  · intro k e o' hk ho'
    obtain ⟨o, ho, rfl⟩ := hget e o' ho'
    rw [(hφ.key e o).2]
    exact hφ.heldOpen k e o hk ho
  · intro e o' ho' hqueued hpending
    obtain ⟨o, ho, rfl⟩ := hget e o' ho'
    exact h.tracked e o ho (hφ.queued e o ho hqueued) (hφ.pending e o ho hpending).1
  · intro g w e hw he
    show e < objects.length
    rw [length_of_update hobjects]
    exact h.known g w e hw he

/-- A worker takes up the pending entries `es`, which are flagged: a callback
puts one in its queue, or a new worker takes over all there are. -/
structure Admits (s s' : Writer K) (g : Nat) (w w' : Worker) (es : List Nat) : Prop where
  entries : s'.entries = s.entries
  thread : s'.thread = s.thread
  workers : s'.workers = (s.setWorker g w').workers
  objects : ∀ e : Nat, s'.objects[e]? =
    (s.objects[e]?).map fun o => if e ∈ es then { o with queued := true } else o
  pending : ∀ e ∈ es, ∃ o, s.objects[e]? = some o ∧ o.future = .pending ∧ o.queued = false
  nodup : es.Nodup
  loops : w'.loops = true
  stopped : w'.status = .stopping → w'.promising = none
  opened : w.status ≠ .closed
  loop : s'.loop = s.loop ∧ w.loops = true ∨ s'.loop = some g
  count : ∀ e, (hand w').count e = (hand w).count e + es.count e

omit [DecidableEq K] in
/-- A worker in its loop has not closed. -/
theorem Worker.loops_open {w : Worker} (h : w.loops = true) : w.status ≠ .closed := by
  intro hclosed
  unfold Worker.loops at h
  rw [hclosed] at h
  cases h

omit [DecidableEq K] in
/-- What a worker holds then is what it held, and what it takes up. -/
theorem Admits.mem {s s' : Writer K} {g : Nat} {w w' : Worker} {es : List Nat}
    (ha : Admits s s' g w w' es) (e : Nat) (he : e ∈ hand w') : e ∈ hand w ∨ e ∈ es := by
  have hpos := List.count_pos_iff.mpr he
  rw [ha.count e] at hpos
  by_cases hold : e ∈ hand w
  · exact Or.inl hold
  · rw [List.count_eq_zero.mpr hold] at hpos
    exact Or.inr (List.count_pos_iff.mp (by omega))

/-- The third shape: a worker takes up pending entries. -/
theorem admits_sound {s s' : Writer K} (h : Sound s) {g : Nat} {w w' : Worker} {es : List Nat}
    (hw : s.workers[g]? = some w) (ha : Admits s s' g w w' es) : Sound s' := by
  have hget : ∀ e o', s'.objects[e]? = some o' → ∃ o, s.objects[e]? = some o ∧ o'.key = o.key ∧
      o'.future = o.future ∧ o'.metadata = o.metadata ∧
      (o'.queued = true → o.queued = true ∨ e ∈ es) := by
    intro e o' ho'
    rw [ha.objects] at ho'
    obtain ⟨o, ho, rfl⟩ := Option.map_eq_some_iff.mp ho'
    refine ⟨o, ho, ?_⟩
    split
    · next he => exact ⟨rfl, rfl, rfl, fun _ => Or.inr he⟩
    · exact ⟨rfl, rfl, rfl, fun hq => Or.inl hq⟩
  have hmem : ∀ e, e ∈ hand w ∨ e ∈ es → e ∈ hand w' := by
    intro e he
    have hcount := ha.count e
    apply List.count_pos_iff.mp
    rcases he with he | he <;> have hpos := List.count_pos_iff.mpr he <;> omega
  have hworker : ∀ g', s'.workers[g']? = if g' = g then some w' else s.workers[g']? := by
    intro g'
    rw [ha.workers, getElem?_setWorker hw]
  have hworker' : ∀ (g' : Nat) (v : Worker), s'.workers[g']? = some v →
      g' = g ∧ v = w' ∨ g' ≠ g ∧ s.workers[g']? = some v := by
    intro g' v hv
    rw [ha.workers] at hv
    exact setWorker_cases hw hv
  refine ⟨?_, ?_, ?_, ?_, ?_, ?_, ?_, ?_, ?_, ?_⟩
  · intro k e hk
    rw [ha.entries] at hk
    obtain ⟨o, ho, hkey⟩ := h.keyed k e hk
    refine ⟨_, by rw [ha.objects, ho, Option.map_some], ?_⟩
    split <;> exact hkey
  · intro e o' ho' hpending
    obtain ⟨o, ho, hkey, hfuture, -⟩ := hget e o' ho'
    rw [ha.entries, hkey]
    exact h.pendingKept e o ho (by rw [← hfuture, hpending])
  · intro k e o' hk ho'
    obtain ⟨o, ho, -, hfuture, hmeta, -⟩ := hget e o' ho'
    rw [ha.entries] at hk
    rw [hfuture, hmeta]
    exact h.heldOpen k e o hk ho
  · intro e o' ho' hqueued hpending
    obtain ⟨o, ho, -, hfuture, -, hflag⟩ := hget e o' ho'
    -- the entries that were taken up are tracked by the worker that took them up
    by_cases hes : e ∈ es
    · exact ⟨g, w', by rw [hworker, if_pos rfl], ha.loops, hmem e (Or.inr hes)⟩
    · have hold : o.queued = true := (hflag hqueued).resolve_right hes
      obtain ⟨g', v, hv, hvloops, hve⟩ := h.tracked e o ho hold (by rw [← hfuture, hpending])
      by_cases heq : g' = g
      · rw [heq, hw, Option.some.injEq] at hv
        exact ⟨g, w', by rw [hworker, if_pos rfl], ha.loops, hmem e (Or.inl (hv ▸ hve))⟩
      · exact ⟨g', v, by rw [hworker, if_neg heq, hv], hvloops, hve⟩
  · intro g' v e hv he
    rw [length_of_update ha.objects]
    rcases hworker' g' v hv with ⟨-, rfl⟩ | ⟨-, hv⟩
    · rcases ha.mem e he with hold | hnew
      · exact h.known g w e hw hold
      · obtain ⟨o, ho, -⟩ := ha.pending e hnew
        exact (List.getElem?_eq_some_iff.mp ho).1
    · exact h.known g' v e hv he
  · intro g' v hv hvloops
    rcases hworker' g' v hv with ⟨-, rfl⟩ | ⟨-, hv⟩
    · rw [ha.loops] at hvloops
      cases hvloops
    · exact h.idle g' v hv hvloops
  · intro g' v hv hstop
    rcases hworker' g' v hv with ⟨-, rfl⟩ | ⟨-, hv⟩
    · exact ha.stopped hstop
    · exact h.stopped g' v hv hstop
  · intro g' hg'
    rw [hworker]
    by_cases heq : g' = g
    · exact ⟨w', by rw [if_pos heq], ha.loops⟩
    · rw [if_neg heq]
      rcases ha.loop with ⟨hloop, -⟩ | hloop
      · exact h.loopLive g' (by rw [← hloop, hg'])
      · rw [hloop] at hg'
        exact absurd (Option.some.inj hg').symm heq
  · intro g' hg'
    rw [ha.thread] at hg'
    rw [hworker]
    by_cases heq : g' = g
    · exact ⟨w', by rw [if_pos heq]⟩
    · rw [if_neg heq]
      exact h.threadKnown g' hg'
  · intro g' v hthread hv hvloops
    rcases ha.loop with ⟨hloop, hwloops⟩ | hloop
    · rw [ha.thread] at hthread
      rw [hloop]
      rcases hworker' g' v hv with ⟨heq, -⟩ | ⟨-, hv⟩
      · exact h.threadLoop g' w hthread (heq ▸ hw) hwloops
      · exact h.threadLoop g' v hthread hv hvloops
    · rw [hloop]
      rfl

/-! ## §4. The steps of all runs. -/

omit [DecidableEq K] in
/-- What an entry is asked before it goes into a queue -/
theorem admissible_iff {s : Writer K} {e : Nat} :
    (s.objects[e]?.any fun o => !o.future.done && !o.queued) = true ↔
      ∃ o, s.objects[e]? = some o ∧ o.future = .pending ∧ o.queued = false := by
  cases ho : s.objects[e]? with
  | none => simp
  | some o => cases hf : o.future <;> simp [Future.done, hf]

omit [DecidableEq K] in
/-- A worker moves on within its event loop. -/
theorem Moves.of_loops {s : Writer K} {w w' : Worker} (hw : w.loops = true) (hw' : w'.loops = true)
    (hstop : w'.status = .stopping → w'.promising = none)
    (hcount : ∀ e, (hand w').count e ≤ (hand w).count e)
    (hlost : ∀ e o, e ∈ hand w → e ∉ hand w' → s.objects[e]? = some o → o.future ≠ .pending) :
    Moves s w w' where
  loops := by rw [hw, hw']
  closed h := absurd h (Worker.loops_open hw')
  stopped := hstop
  idle h := by
    rw [hw'] at h
    cases h
  count := hcount
  lost := hlost

omit [DecidableEq K] in
/-- The entries in hand are the same. -/
theorem Moves.of_hand {s : Writer K} {w w' : Worker} (hw : w.loops = true) (hw' : w'.loops = true)
    (hstop : w'.status = .stopping → w'.promising = none) (hhand : (hand w').Perm (hand w)) :
    Moves s w w' :=
  Moves.of_loops hw hw' hstop (fun e => (hhand.count_eq e).le)
    fun _ _ he hlost _ => absurd (hhand.mem_iff.mpr he) hlost

omit [DecidableEq K] in
/-- A callback for a worker that is not in its loop is dropped. -/
theorem callSoon_cases (s : Writer K) (g : Nat) (c : Callback) :
    s.callSoon g c = s ∨ ∃ w, s.workers[g]? = some w ∧ w.loops = true ∧
      s.callSoon g c = s.setWorker g { w with callbacks := w.callbacks ++ [c] } := by
  unfold callSoon
  cases hw : s.workers[g]? with
  | none => exact Or.inl rfl
  | some w =>
    simp only
    split
    · next hloops => exact Or.inr ⟨w, rfl, hloops, rfl⟩
    · exact Or.inl rfl

/-- What a step does to a worker: nothing, or it moves on. -/
def WorkerStep (s s' : Writer K) : Prop :=
  s' = s ∨ ∃ g w w', s.workers[g]? = some w ∧ Moves s w w' ∧ s' = s.setWorker g w'

omit [DecidableEq K] in
/-- A move is such a step. -/
theorem WorkerStep.of_moves {s : Writer K} {g : Nat} {w w' : Worker} (hw : s.workers[g]? = some w)
    (hm : Moves s w w') : WorkerStep s (s.setWorker g w') :=
  Or.inr ⟨g, w, w', hw, hm, rfl⟩

omit [DecidableEq K] in
/-- It leaves the entries and their objects alone. -/
theorem WorkerStep.same {s s' : Writer K} (h : WorkerStep s s') :
    s'.entries = s.entries ∧ s'.objects = s.objects := by
  rcases h with rfl | ⟨g, w, w', -, -, rfl⟩
  · exact ⟨rfl, rfl⟩
  · exact ⟨rfl, rfl⟩

/-- It keeps the invariant. -/
theorem WorkerStep.sound {s s' : Writer K} (h : Sound s) (hstep : WorkerStep s s') : Sound s' := by
  rcases hstep with rfl | ⟨g, w, w', hw, hm, rfl⟩
  · exact h
  · exact setWorker_sound h hw hm

/-- A queued callback takes no entry in hand. -/
theorem callSoon_step {s : Writer K} (h : Sound s) (g : Nat) (c : Callback) :
    WorkerStep s (s.callSoon g c) := by
  rcases callSoon_cases s g c with heq | ⟨w, hw, hloops, heq⟩
  · exact Or.inl heq
  · rw [heq]
    exact WorkerStep.of_moves hw
      (Moves.of_hand hloops hloops (h.stopped g w hw) (List.Perm.refl _))

/-- Enqueueing an entry only queues a callback. -/
theorem enqueue_step {s : Writer K} (h : Sound s) (e : Nat) : WorkerStep s (s.enqueue e) := by
  unfold enqueue
  cases s.enqueueTarget e with
  | none => exact Or.inl rfl
  | some g => exact callSoon_step h g _

/-- A worker that starts has nothing in hand yet. -/
theorem start_step {s : Writer K} (h : Sound s) (g : Nat) : WorkerStep s (s.start g) := by
  unfold start
  cases hw : s.workers[g]? with
  | none => exact Or.inl rfl
  | some w =>
    simp only
    split
    · next hcreated =>
      have hloops : w.loops = false := by
        unfold Worker.loops
        rw [hcreated]
        rfl
      obtain ⟨hqueue, hpromising, hinflight⟩ := h.idle g w hw hloops
      refine WorkerStep.of_moves hw ⟨?_, ?_, ?_, ?_, fun _ => le_rfl, ?_⟩
      · rw [hloops]
        rfl
      · intro hclosed
        cases hclosed
      · intro hstop
        cases hstop
      · exact fun _ => ⟨hqueue, hpromising, hinflight⟩
      · exact fun _ _ he hlost _ => absurd he hlost
    · exact Or.inl rfl

/-- The loop takes an entry out of the queue: it is promised, or done and dropped. -/
theorem take_step {s : Writer K} (h : Sound s) (g : Nat) : WorkerStep s (s.take g) := by
  unfold take
  cases hw : s.workers[g]? with
  | none => exact Or.inl rfl
  | some w =>
    simp only
    split
    · next hcond =>
      obtain ⟨hrunning, hfree⟩ : w.status = .running ∧ w.promising = none := by
        simpa using hcond
      have hloops : w.loops = true := by
        unfold Worker.loops
        rw [hrunning]
        rfl
      cases hqueue : w.queue with
      | nil => exact Or.inl rfl
      | cons head rest =>
        cases head with
        | none =>
          -- the loop ends: what is left in the queue stays in hand
          refine WorkerStep.of_moves hw (Moves.of_hand hloops rfl (fun _ => hfree) ?_)
          unfold hand
          rw [hqueue]
          exact List.Perm.refl _
        | some e =>
          simp only
          split
          -- the entry moves from the queue to the promise
          · refine WorkerStep.of_moves hw (Moves.of_hand hloops hloops ?_ ?_)
            · intro hstop
              rw [show _ = w.status from rfl, hrunning] at hstop
              cases hstop
            · unfold hand
              rw [hqueue, hfree]
              simp only [List.filterMap_cons, id, Option.toList, List.append_nil]
              exact (List.perm_append_singleton e _).append_right _
          -- an entry that is done leaves the hands of the worker
          · next hdone =>
            refine WorkerStep.of_moves hw (Moves.of_loops hloops hloops ?_ ?_ ?_)
            · exact h.stopped g w hw
            · intro e'
              unfold hand
              rw [hqueue]
              simp only [List.filterMap_cons, id, List.cons_append, List.count_cons]
              omega
            · intro e' o he' hlost ho
              have heq : e' = e := by
                by_contra hne
                apply hlost
                rw [mem_hand] at he' ⊢
                rw [hqueue] at he'
                simpa [hne] using he'
              rw [heq] at ho
              rw [ho] at hdone
              intro hpending
              exact hdone (by simp [Future.done, hpending])
    · exact Or.inl rfl

/-- A promised entry goes into flight. -/
theorem promised_step {s : Writer K} (h : Sound s) (g : Nat) : WorkerStep s (s.promised g) := by
  unfold promised
  cases hw : s.workers[g]? with
  | none => exact Or.inl rfl
  | some w =>
    simp only
    cases hpromising : w.promising with
    | none => exact Or.inl rfl
    | some e =>
      have hloops : w.loops = true := by
        cases hl : w.loops with
        | true => rfl
        | false =>
          rw [(h.idle g w hw hl).2.1] at hpromising
          cases hpromising
      refine WorkerStep.of_moves hw (Moves.of_hand hloops hloops (fun _ => rfl) ?_)
      -- the order of the entries in hand does not matter
      unfold hand
      rw [hpromising]
      simp only [Option.toList, List.append_nil]
      rw [List.append_assoc]
      exact (List.perm_append_comm).append_left _

/-- A callback stops the loop, or takes up the entry that it was queued for. -/
theorem callback_step {s : Writer K} (h : Sound s) (g : Nat) :
    WorkerStep s (s.callback g) ∨
      ∃ w w' es, s.workers[g]? = some w ∧ Admits s (s.callback g) g w w' es := by
  unfold callback
  cases hw : s.workers[g]? with
  | none => exact Or.inl (Or.inl rfl)
  | some w =>
    simp only
    split
    · next hloops =>
      cases hcallbacks : w.callbacks with
      | nil => exact Or.inl (Or.inl rfl)
      | cons c rest =>
        cases c with
        | stop =>
          refine Or.inl (WorkerStep.of_moves hw
            (Moves.of_hand hloops hloops (h.stopped g w hw) ?_))
          unfold hand
          rw [List.filterMap_append]
          simp
        | put e =>
          simp only
          split
          · next hadmissible =>
            -- the flag goes up and the entry into the queue
            obtain ⟨o, ho, hpending, hfree⟩ := admissible_iff.mp hadmissible
            refine Or.inr ⟨w, { w with callbacks := rest, queue := w.queue ++ [some e] }, [e], rfl,
              rfl, rfl, rfl, ?_, ?_, List.nodup_singleton e, hloops, h.stopped g w hw,
              Worker.loops_open hloops, Or.inl ⟨rfl, hloops⟩, ?_⟩
            · intro e'
              show (s.updateObject e fun o => { o with queued := true }).objects[e']? = _
              rw [getElem?_updateObject]
              simp only [List.mem_singleton]
            · intro e' he'
              rw [List.mem_singleton.mp he']
              exact ⟨o, ho, hpending, hfree⟩
            · intro e'
              unfold hand
              rw [List.filterMap_append]
              simp only [List.filterMap_cons, id, List.filterMap_nil, List.count_append]
              omega
          · exact Or.inl (WorkerStep.of_moves hw
              (Moves.of_hand hloops hloops (h.stopped g w hw) (List.Perm.refl _)))
    · exact Or.inl (Or.inl rfl)

/-- An entry is filed under one key. -/
theorem Sound.entries_inj {s : Writer K} (h : Sound s) {k k' : K} {e : Nat}
    (hk : s.entries.lookup k = some e) (hk' : s.entries.lookup k' = some e) : k = k' := by
  obtain ⟨o, ho, hkey⟩ := h.keyed k e hk
  obtain ⟨o', ho', hkey'⟩ := h.keyed k' e hk'
  rw [ho, Option.some.injEq] at ho'
  rw [← hkey, ← hkey', ho']

/-- The entries that a new worker takes over -/
theorem mem_pendingEntries {s : Writer K} {e : Nat} :
    e ∈ s.pendingEntries ↔ (∃ k, s.entries.lookup k = some e) ∧
      ∃ o, s.objects[e]? = some o ∧ o.future = .pending ∧ o.queued = false := by
  unfold pendingEntries
  rw [List.mem_filter, admissible_iff, List.mem_map]
  constructor
  · rintro ⟨⟨⟨k, e'⟩, hmem, rfl⟩, hadmissible⟩
    exact ⟨⟨k, Dict.mem_items.mp hmem⟩, hadmissible⟩
  · rintro ⟨⟨k, hk⟩, hadmissible⟩
    exact ⟨⟨(k, e), Dict.mem_items.mpr hk, rfl⟩, hadmissible⟩

/-- They are different ones. -/
theorem nodup_pendingEntries {s : Writer K} (h : Sound s) : s.pendingEntries.Nodup := by
  unfold pendingEntries
  refine List.Nodup.filter _ (List.Nodup.map_on ?_ ?_)
  · rintro ⟨k, e⟩ hx ⟨k', e'⟩ hy heq
    have hx' := Dict.mem_items.mp hx
    have hy' := Dict.mem_items.mp hy
    simp only at heq
    rw [← heq] at hy'
    rw [h.entries_inj hx' hy', heq]
  · exact List.Nodup.of_map Prod.fst (Dict.nodup_map_fst_items s.entries)

/-- A worker that has started takes over all pending entries. -/
theorem scan_step {s : Writer K} (h : Sound s) (g : Nat) :
    s.scan g = s ∨ ∃ w, s.workers[g]? = some w ∧ w.status = .started ∧
      Admits s (s.scan g) g w { w with status := .running, queue := s.pendingEntries.map some }
        s.pendingEntries := by
  unfold scan
  cases hw : s.workers[g]? with
  | none => exact Or.inl rfl
  | some w =>
    simp only
    split
    · next hstarted =>
      have hloops : w.loops = false := by
        unfold Worker.loops
        rw [hstarted]
        rfl
      -- a worker that has not looped yet has nothing in its hands
      obtain ⟨hqueue, hpromising, hinflight⟩ := h.idle g w hw hloops
      refine Or.inr ⟨w, rfl, hstarted, rfl, rfl, rfl, ?_, ?_, nodup_pendingEntries h, rfl, ?_, ?_,
        Or.inr rfl, ?_⟩
      · intro e
        show (s.objects.mapIdx _)[e]? = _
        rw [List.getElem?_mapIdx]
      · intro e he
        exact (mem_pendingEntries.mp he).2
      · intro hstop
        cases hstop
      · intro hclosed
        rw [hstarted] at hclosed
        cases hclosed
      · intro e
        unfold hand
        rw [hqueue, hpromising, hinflight]
        simp [List.filterMap_map]
    · exact Or.inl rfl

/-- After a reset no entry is flagged as queued. -/
theorem reset_settles (s : Writer K) (h : Sound s) :
    Settles s s.entries fun _ o => { o with queued := false } where
  key _ _ := ⟨rfl, rfl⟩
  kept _ _ hk := hk
  pending _ _ _ hpending := ⟨hpending, id⟩
  heldOpen k e o hk ho := h.heldOpen k e o hk ho
  queued _ _ _ hqueued := by cases hqueued

/-- A reset is of the second shape. -/
theorem reset_sound {s : Writer K} (h : Sound s) : Sound s.reset :=
  settles_sound h (reset_settles s h) fun _ => List.getElem?_map

/-- Clearing drops every entry, and cancels the futures that are open. -/
theorem clear_settles (s : Writer K) (h : Sound s) :
    Settles s ∅ fun e o => if s.entries.lookup o.key = some e then
      { o with purged := true, future := if o.future.done then o.future else .cancelled }
      else o where
  key e o := by split <;> exact ⟨rfl, rfl⟩
  kept k e hk := by cases hk
  pending e o ho hpending := by
    exfalso
    split at hpending
    · simp only at hpending
      split at hpending
      · next hdone =>
        rw [hpending] at hdone
        cases hdone
      · cases hpending
    -- an object that is no entry was done before
    · next hout => exact hout (h.pendingKept e o ho hpending)
  heldOpen k e o hk := by cases hk
  queued e o _ hqueued := by
    split at hqueued <;> exact hqueued

/-- So is clearing. -/
theorem clear_sound {s : Writer K} (h : Sound s) : Sound s.clear :=
  settles_sound h (clear_settles s h) fun _ => List.getElem?_mapIdx

/-- A write by `flush` that is not refused, of a buffer -/
theorem flushed_cases (s : Writer K) (key : K) (ok : Bool) :
    s.flushed key ok = s ∨ ∃ e, s.entries.lookup key = some e ∧ ok = true ∧
      (∀ o, s.objects[e]? = some o → o.metadata = false) ∧
      s.flushed key ok =
        { s.updateObject e fun o =>
            { o with reported := true, future := if o.future.done then o.future else .result true } with
          entries := s.entries.erase key } := by
  unfold flushed
  cases hk : s.entries.lookup key with
  | none => exact Or.inl rfl
  | some e =>
    simp only
    split
    · next hcond =>
      obtain ⟨hok, hmeta⟩ : ok = true ∧ (s.objects[e]?.any QueueEntry.metadata) = false := by
        simpa using hcond
      refine Or.inr ⟨e, rfl, hok, ?_, rfl⟩
      intro o ho
      rw [ho] at hmeta
      exact hmeta
    · exact Or.inl rfl

/-- A write by `flush` settles its entry, which is dropped. -/
theorem flushed_settles {s : Writer K} (h : Sound s) {key : K} {e : Nat}
    (hk : s.entries.lookup key = some e) :
    Settles s (s.entries.erase key) fun e' o => if e' = e then
      { o with reported := true, future := if o.future.done then o.future else .result true }
      else o where
  key e' o := by split <;> exact ⟨rfl, rfl⟩
  kept k e' hk' := by
    rw [Dict.lookup_erase] at hk'
    split at hk'
    · cases hk'
    · exact hk'
  pending e' o ho hpending := by
    split at hpending
    · exfalso
      simp only at hpending
      split at hpending
      · next hdone =>
        rw [hpending] at hdone
        cases hdone
      · cases hpending
    · next hne =>
      refine ⟨hpending, fun hlook => ?_⟩
      -- a pending object is the entry of its own key, which was not flushed
      rw [Dict.lookup_erase, if_neg, hlook]
      intro heq
      rw [heq, hk, Option.some.injEq] at hlook
      exact hne hlook.symm
  heldOpen k e' o hk' ho := by
    rw [Dict.lookup_erase] at hk'
    split at hk'
    · cases hk'
    · next hne =>
      have he : e' ≠ e := by
        intro heq
        rw [heq] at hk'
        exact hne (h.entries_inj hk' hk)
      rw [if_neg he]
      exact h.heldOpen k e' o hk' ho
  queued e' o _ hqueued := by
    split at hqueued <;> exact hqueued

/-- So is a write by `flush`. -/
theorem flushed_sound {s : Writer K} (h : Sound s) (key : K) (ok : Bool) :
    Sound (s.flushed key ok) := by
  rcases flushed_cases s key ok with heq | ⟨e, hk, -, -, heq⟩
  · rw [heq]
    exact h
  · rw [heq]
    exact settles_sound h (flushed_settles h hk) fun e' => getElem?_updateObject s e _ e'

/-- The entries after a write of `e` has ended -/
def entriesAfter (s : Writer K) (e : Nat) (o : QueueEntry K) (outcome : Outcome) : Dict K Nat :=
  if (outcome ≠ .raised ∨ o.metadata) ∧ s.entries.lookup o.key = some e then
    s.entries.erase o.key
  else s.entries

/-- What the end of a write does: it settles the entry, and lets go of it. -/
theorem finish_eq {s : Writer K} {g e : Nat} {w : Worker} {o : QueueEntry K}
    (hw : s.workers[g]? = some w) (ho : s.objects[e]? = some o) (hmem : e ∈ w.inflight)
    (outcome : Outcome) : s.finish g e outcome =
      ({ s.updateObject e fun o => settle o outcome with
        entries := entriesAfter s e o outcome } : Writer K).setWorker g
        { w with inflight := w.inflight.erase e } := by
  unfold finish entriesAfter
  rw [hw, ho]
  simp only
  rw [if_pos hmem]
  by_cases hcond : (outcome ≠ .raised ∨ o.metadata) ∧ s.entries.lookup o.key = some e
  · rw [if_pos hcond]
    exact if_pos hcond
  · rw [if_neg hcond]
    exact if_neg hcond

/-- A write can only end at a worker that has it in flight. -/
theorem finish_cases (s : Writer K) (g e : Nat) (outcome : Outcome) :
    s.finish g e outcome = s ∨ ∃ w o, s.workers[g]? = some w ∧ s.objects[e]? = some o ∧
      e ∈ w.inflight ∧ s.finish g e outcome =
        ({ s.updateObject e fun o => settle o outcome with
          entries := entriesAfter s e o outcome } : Writer K).setWorker g
          { w with inflight := w.inflight.erase e } := by
  cases hw : s.workers[g]? with
  | none =>
    refine Or.inl ?_
    unfold finish
    rw [hw]
  | some w =>
    cases ho : s.objects[e]? with
    | none =>
      refine Or.inl ?_
      unfold finish
      rw [hw, ho]
    | some o =>
      by_cases hmem : e ∈ w.inflight
      · exact Or.inr ⟨w, o, rfl, rfl, hmem, finish_eq hw ho hmem outcome⟩
      · refine Or.inl ?_
        unfold finish
        rw [hw, ho]
        exact if_neg hmem

omit [DecidableEq K] in
/-- A settled entry is done. -/
theorem settle_done (o : QueueEntry K) (outcome : Outcome) :
    (settle o outcome).future ≠ .pending := by
  unfold settle
  intro hpending
  simp only at hpending
  split at hpending
  · next hdone =>
    rw [hpending] at hdone
    cases hdone
  · cases outcome <;> cases hpending

/-- No entry comes back. -/
theorem entriesAfter_kept {s : Writer K} {e : Nat} {o : QueueEntry K} {outcome : Outcome} {k : K}
    {e' : Nat} (hk : (entriesAfter s e o outcome).lookup k = some e') :
    s.entries.lookup k = some e' := by
  unfold entriesAfter at hk
  split at hk
  · rw [Dict.lookup_erase] at hk
    split at hk
    · cases hk
    · exact hk
  · exact hk

/-- Other entries stay. -/
theorem entriesAfter_other {s : Writer K} {e : Nat} {o : QueueEntry K} {outcome : Outcome} {k : K}
    {e' : Nat} (hne : e' ≠ e) (hk : s.entries.lookup k = some e') :
    (entriesAfter s e o outcome).lookup k = some e' := by
  unfold entriesAfter
  split
  · next hcond =>
    rw [Dict.lookup_erase, if_neg, hk]
    intro heq
    rw [heq, hcond.2, Option.some.injEq] at hk
    exact hne hk.symm
  · exact hk

/-- The end of a write settles its entry, which stays only where the write of a buffer
raised. -/
theorem finish_settles {s : Writer K} (h : Sound s) {e : Nat} {o : QueueEntry K}
    (ho : s.objects[e]? = some o) (outcome : Outcome) :
    Settles s (entriesAfter s e o outcome) fun e' o => if e' = e then settle o outcome else o where
  key e' o' := by split <;> exact ⟨rfl, rfl⟩
  kept k e' hk := entriesAfter_kept hk
  pending e' o' ho' hpending := by
    split at hpending
    · exact absurd hpending (settle_done o' outcome)
    · next hne => exact ⟨hpending, entriesAfter_other hne⟩
  heldOpen k e' o' hk ho' := by
    have hold := entriesAfter_kept hk
    split
    · next heq =>
      -- the entry stays only where the write of a buffer raised
      rw [heq] at hold ho' hk
      rw [ho, Option.some.injEq] at ho'
      rw [← ho']
      obtain ⟨o'', ho'', hkey⟩ := h.keyed k e hold
      rw [ho, Option.some.injEq] at ho''
      rw [← ho''] at hkey
      have hraised : outcome = .raised ∧ o.metadata = false := by
        unfold entriesAfter at hk
        by_contra hno
        have hcond : (outcome ≠ .raised ∨ o.metadata) ∧ s.entries.lookup o.key = some e := by
          refine ⟨?_, by rw [hkey, hold]⟩
          by_cases hr : outcome = .raised
          · refine Or.inr ?_
            by_contra hmeta
            exact hno ⟨hr, by simpa using hmeta⟩
          · exact Or.inl hr
        rw [if_pos hcond, Dict.lookup_erase, if_pos hkey.symm] at hk
        cases hk
      refine Or.inr ⟨?_, hraised.2⟩
      unfold settle
      rw [hraised.1]
      rcases h.heldOpen k e o hold ho with hpending | ⟨hexception, -⟩
      · simp [hpending, Future.done]
      · simp [hexception, Future.done]
    · exact h.heldOpen k e' o' hold ho'
  queued e' o' _ hqueued := by
    split at hqueued <;> exact hqueued

/-- The worker lets go of the entry, which is done. -/
theorem finish_moves {s : Writer K} (h : Sound s) {g e : Nat} {w : Worker} {o : QueueEntry K}
    (hw : s.workers[g]? = some w) (hmem : e ∈ w.inflight) (outcome : Outcome) (ho :
      s.objects[e]? = some o) :
    Moves { s.updateObject e fun o => settle o outcome with entries := entriesAfter s e o outcome }
      w { w with inflight := w.inflight.erase e } := by
  have hloops : w.loops = true := by
    cases hl : w.loops with
    | true => rfl
    | false =>
      rw [(h.idle g w hw hl).2.2] at hmem
      cases hmem
  refine Moves.of_loops hloops hloops (h.stopped g w hw) ?_ ?_
  · intro e'
    unfold hand
    have hle : (w.inflight.erase e).count e' ≤ w.inflight.count e' :=
      List.Sublist.count_le e' List.erase_sublist
    simp only [List.count_append]
    omega
  · intro e' o' he' hlost ho'
    have heq : e' = e := by
      by_contra hne
      apply hlost
      rw [mem_hand] at he' ⊢
      rcases he' with he' | he' | he'
      · exact Or.inl he'
      · exact Or.inr (Or.inl he')
      · exact Or.inr (Or.inr ((List.mem_erase_of_ne hne).mpr he'))
    change (s.updateObject e fun o => settle o outcome).objects[e']? = some o' at ho'
    rw [getElem?_updateObject, heq, ho, Option.map_some, if_pos rfl, Option.some.injEq] at ho'
    rw [← ho']
    exact settle_done o outcome

/-- The second shape and then the first -/
theorem finish_sound {s : Writer K} (h : Sound s) (g e : Nat) (outcome : Outcome) :
    Sound (s.finish g e outcome) := by
  rcases finish_cases s g e outcome with heq | ⟨w, o, hw, ho, hmem, heq⟩
  · rw [heq]
    exact h
  · rw [heq]
    refine setWorker_sound (settles_sound h (finish_settles h ho outcome) ?_) hw
      (finish_moves h hw hmem outcome ho)
    exact fun e' => getElem?_updateObject s e _ e'

omit [DecidableEq K] in
/-- The end of a worker -/
theorem close_cases (s : Writer K) (g : Nat) :
    s.close g = s ∨ ∃ w, s.workers[g]? = some w ∧ w.status = .stopping ∧ w.inflight = [] ∧
      s.close g = { s.reset.setWorker g .over with thread := none, loop := none } := by
  unfold close
  cases hw : s.workers[g]? with
  | none => exact Or.inl rfl
  | some w =>
    simp only
    split
    · next hcond =>
      obtain ⟨hstop, hempty⟩ : w.status = .stopping ∧ w.inflight = [] := by simpa using hcond
      exact Or.inr ⟨w, rfl, hstop, hempty, rfl⟩
    · exact Or.inl rfl

/-- A worker that closes has nothing in hand, and no entry is flagged any more. -/
theorem close_sound {s : Writer K} (h : Sound s) (g : Nat) : Sound (s.close g) := by
  rcases close_cases s g with heq | ⟨w, hw, hstop, hempty, heq⟩
  · rw [heq]
    exact h
  · rw [heq]
    have hr := reset_sound h
    refine ⟨hr.keyed, hr.pendingKept, hr.heldOpen, ?_, ?_, ?_, ?_, ?_, ?_, ?_⟩
    · intro e o ho hqueued
      change (s.objects.map _)[e]? = some o at ho
      rw [List.getElem?_map] at ho
      obtain ⟨o', -, rfl⟩ := Option.map_eq_some_iff.mp ho
      cases hqueued
    · intro g' v e hv he
      rcases setWorker_cases (s := s.reset) hw hv with ⟨-, rfl⟩ | ⟨-, hv⟩
      · cases he
      · exact hr.known g' v e hv he
    · intro g' v hv hloops
      rcases setWorker_cases (s := s.reset) hw hv with ⟨-, rfl⟩ | ⟨-, hv⟩
      · exact ⟨rfl, rfl, rfl⟩
      · exact h.idle g' v hv hloops
    · intro g' v hv hstop'
      rcases setWorker_cases (s := s.reset) hw hv with ⟨-, rfl⟩ | ⟨-, hv⟩
      · cases hstop'
      · exact h.stopped g' v hv hstop'
    · intro g' hg'
      cases hg'
    · intro g' hg'
      cases hg'
    · intro g' v hthread
      cases hthread

/-- A buffer that has an entry keeps it. -/
theorem register_cases (s : Writer K) (key : K) (metadata : Bool) :
    s.register key metadata = s ∨ s.entries.lookup key = none ∧ s.register key metadata =
      { s with
        entries := s.entries.set key s.objects.length
        objects := s.objects ++ [⟨key, metadata, .pending, false, false, false⟩] } := by
  unfold register
  cases hk : s.entries.lookup key with
  | none => exact Or.inr ⟨rfl, rfl⟩
  | some e => exact Or.inl rfl

omit [DecidableEq K] in
/-- An object after one was added -/
theorem object_append_cases {s : Writer K} {new o : QueueEntry K} {e : Nat}
    (ho : (s.objects ++ [new])[e]? = some o) :
    s.objects[e]? = some o ∨ e = s.objects.length ∧ o = new := by
  rcases lt_or_ge e s.objects.length with hlt | hge
  · rw [List.getElem?_append_left hlt] at ho
    exact Or.inl ho
  · rw [List.getElem?_append_right hge] at ho
    obtain ⟨hlt, hval⟩ := List.getElem?_eq_some_iff.mp ho
    have hzero : e = s.objects.length := by
      simp only [List.length_singleton] at hlt
      omega
    exact Or.inr ⟨hzero, by rw [← hval]; simp⟩

omit [DecidableEq K] in
/-- The other objects stay. -/
theorem object_append_old {s : Writer K} {new o : QueueEntry K} {e : Nat}
    (ho : s.objects[e]? = some o) : (s.objects ++ [new])[e]? = some o := by
  rw [List.getElem?_append_left (List.getElem?_eq_some_iff.mp ho).1, ho]

/-- A new entry is pending and not queued yet. -/
theorem register_sound {s : Writer K} (h : Sound s) (key : K) (metadata : Bool) :
    Sound (s.register key metadata) := by
  rcases register_cases s key metadata with heq | ⟨hnone, heq⟩
  · rw [heq]
    exact h
  · rw [heq]
    -- a new object is the last one, and its key had no entry
    refine ⟨?_, ?_, ?_, ?_, ?_, h.idle, h.stopped, h.loopLive, h.threadKnown, h.threadLoop⟩
    · intro k e hk
      change (s.entries.set key s.objects.length).lookup k = some e at hk
      rw [Dict.lookup_set] at hk
      split at hk
      · next hkey =>
        rw [← Option.some.inj hk, hkey]
        exact ⟨⟨key, metadata, .pending, false, false, false⟩, by simp, rfl⟩
      · obtain ⟨o, ho, hkey⟩ := h.keyed k e hk
        exact ⟨o, object_append_old ho, hkey⟩
    · intro e o ho hpending
      show (s.entries.set key s.objects.length).lookup o.key = some e
      rw [Dict.lookup_set]
      rcases object_append_cases ho with ho | ⟨he, rfl⟩
      · have hlook := h.pendingKept e o ho hpending
        rw [if_neg, hlook]
        intro hkey
        rw [hkey, hnone] at hlook
        cases hlook
      · rw [if_pos rfl, he]
    · intro k e o hk ho
      change (s.entries.set key s.objects.length).lookup k = some e at hk
      rw [Dict.lookup_set] at hk
      rcases object_append_cases ho with ho | ⟨-, rfl⟩
      · split at hk
        · rw [← Option.some.inj hk] at ho
          have hlt := (List.getElem?_eq_some_iff.mp ho).1
          omega
        · exact h.heldOpen k e o hk ho
      · exact Or.inl rfl
    · intro e o ho hqueued hpending
      rcases object_append_cases ho with ho | ⟨-, rfl⟩
      · exact h.tracked e o ho hqueued hpending
      · cases hqueued
    · intro g w e hw he
      have hlt := h.known g w e hw he
      show e < (s.objects ++ [_]).length
      rw [List.length_append]
      omega

omit [DecidableEq K] in
/-- A worker is created where no thread is alive. -/
theorem ensureWorker_cases (s : Writer K) :
    s.ensureWorker = s ∧ s.thread.any s.alive = true ∨ s.thread.any s.alive = false ∧
      s.ensureWorker = { s with
        workers := s.workers ++ [⟨.created, [], [], none, []⟩]
        thread := some s.workers.length } := by
  unfold ensureWorker
  cases hthread : s.thread.any s.alive with
  | true => exact Or.inl ⟨rfl, rfl⟩
  | false => exact Or.inr ⟨rfl, rfl⟩

omit [DecidableEq K] in
/-- A worker after one was added -/
theorem worker_append_cases {s : Writer K} {new w : Worker} {g : Nat}
    (hw : (s.workers ++ [new])[g]? = some w) :
    s.workers[g]? = some w ∨ g = s.workers.length ∧ w = new := by
  rcases lt_or_ge g s.workers.length with hlt | hge
  · rw [List.getElem?_append_left hlt] at hw
    exact Or.inl hw
  · rw [List.getElem?_append_right hge] at hw
    obtain ⟨hlt, hval⟩ := List.getElem?_eq_some_iff.mp hw
    have hzero : g = s.workers.length := by
      simp only [List.length_singleton] at hlt
      omega
    exact Or.inr ⟨hzero, by rw [← hval]; simp⟩

omit [DecidableEq K] in
/-- The other workers stay. -/
theorem worker_append_old {s : Writer K} {new w : Worker} {g : Nat}
    (hw : s.workers[g]? = some w) : (s.workers ++ [new])[g]? = some w := by
  rw [List.getElem?_append_left (List.getElem?_eq_some_iff.mp hw).1, hw]

/-- A new worker has nothing in hand. -/
theorem ensureWorker_sound {s : Writer K} (h : Sound s) : Sound s.ensureWorker := by
  rcases ensureWorker_cases s with ⟨heq, -⟩ | ⟨-, heq⟩
  · rw [heq]
    exact h
  · rw [heq]
    refine ⟨h.keyed, h.pendingKept, h.heldOpen, ?_, ?_, ?_, ?_, ?_, ?_, ?_⟩
    · intro e o ho hqueued hpending
      obtain ⟨g, w, hw, hrest⟩ := h.tracked e o ho hqueued hpending
      exact ⟨g, w, worker_append_old hw, hrest⟩
    · intro g w e hw he
      rcases worker_append_cases hw with hw | ⟨-, rfl⟩
      · exact h.known g w e hw he
      · cases he
    · intro g w hw hloops
      rcases worker_append_cases hw with hw | ⟨-, rfl⟩
      · exact h.idle g w hw hloops
      · exact ⟨rfl, rfl, rfl⟩
    · intro g w hw hstop
      rcases worker_append_cases hw with hw | ⟨-, rfl⟩
      · exact h.stopped g w hw hstop
      · cases hstop
    · intro g hg
      obtain ⟨w, hw, hloops⟩ := h.loopLive g hg
      exact ⟨w, worker_append_old hw, hloops⟩
    · intro g hg
      rw [← Option.some.inj hg]
      exact ⟨⟨.created, [], [], none, []⟩, by simp⟩
    · intro g w hg hw hloops
      rw [← Option.some.inj hg] at hw
      rcases worker_append_cases hw with hw | ⟨-, rfl⟩
      · have hlt := (List.getElem?_eq_some_iff.mp hw).1
        omega
      · cases hloops

/-- Every step keeps the first invariant. -/
theorem step_sound {s : Writer K} (h : Sound s) (st : Step K) : Sound (step s st).1 := by
  cases st with
  | register key metadata => exact register_sound h key metadata
  | ensureWorker => exact ensureWorker_sound h
  | start g => exact (start_step h g).sound h
  | scan g =>
    rcases scan_step h g with heq | ⟨w, hw, -, ha⟩
    · show Sound (s.scan g)
      rw [heq]
      exact h
    · exact admits_sound h hw ha
  | enqueue e => exact (enqueue_step h e).sound h
  | callSoon g c => exact (callSoon_step h g c).sound h
  | callback g =>
    rcases callback_step h g with hstep | ⟨w, w', es, hw, ha⟩
    · exact hstep.sound h
    · exact admits_sound h hw ha
  | take g => exact (take_step h g).sound h
  | promised g => exact (promised_step h g).sound h
  | finish g e outcome => exact finish_sound h g e outcome
  | close g => exact close_sound h g
  | reset => exact reset_sound h
  | clear => exact clear_sound h
  | flushed key ok => exact flushed_sound h key ok

/-- So the invariant holds after every run. -/
theorem after_sound (steps : List (Step K)) : Sound (after steps) :=
  Run.exec_invariant step Sound (fun _ st h => step_sound h st) initial_sound steps

end SeamlessCore.BufferWriter
