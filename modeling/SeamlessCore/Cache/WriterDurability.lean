/-
  SeamlessCore.Cache.WriterDurability — what the writer keeps, and until when.

  A registered buffer should stay an entry until a write of it has reported
  success, or it is purged; no entry should be processed twice at a time; and
  a restarted worker should take over all that is not done.  The last holds in
  every run.  The first breaks where a write returns without success: its
  entry is dropped like that of a written one.  The second breaks where the
  flags of the entries are taken down under a worker that has some in hand: at
  the end of a stop, when a new worker has been started meanwhile, and at the
  end of a worker, when there are two of them.

  Main results:
    * `kept_step`, `single_step` — one step that is not of these kinds;
    * `scan_takes` — a new worker takes over every pending entry;
    * `writerDurability` — the three properties, over all runs;
    * `refused_write_lost` — a write that returns `False` loses its buffer.
-/
import SeamlessCore.Cache.WriterInvariant

namespace SeamlessCore.BufferWriter

variable {K : Type} [DecidableEq K]

open Writer

/-! ## §1. The steps that do harm. -/

/-- A write of the entry of a buffer ends without success and without an
exception: `set_result(False)`, and the entry goes. -/
def Refused (s : Writer K) (g e : Nat) (outcome : Outcome) : Prop :=
  outcome = .returned false ∧ ∃ w o, s.workers[g]? = some w ∧ e ∈ w.inflight ∧
    s.objects[e]? = some o ∧ o.metadata = false ∧ s.entries.lookup o.key = some e

/-- A worker other than `spared` has an entry in hand that is not done. -/
def Busy (s : Writer K) (spared : Option Nat) : Prop :=
  ∃ (g : Nat) (w : Worker) (e : Nat) (o : QueueEntry K), spared ≠ some g ∧
    s.workers[g]? = some w ∧ e ∈ hand w ∧ s.objects[e]? = some o ∧ o.future = .pending

/-- The step does not take the entry of a buffer away unwritten. -/
def Keeps (s : Writer K) : Step K → Prop
  | .finish g e outcome => ¬ Refused s g e outcome
  | _ => True

/-- The step does not take the flags down under a worker. -/
def KeepsFlags (s : Writer K) : Step K → Prop
  | .reset => ¬ Busy s none
  | .close g => ¬ Busy s (some g)
  | _ => True

/-! ## §2. What is kept. -/

/-- The buffer of an entry is still to be written, has been, or was purged. -/
def Kept (s : Writer K) : Prop :=
  ∀ e o, s.objects[e]? = some o → o.metadata = false →
    s.entries.lookup o.key = some e ∨ o.reported = true ∨ o.purged = true

theorem initial_kept : Kept (initial : Writer K) := by
  intro e o ho
  simp [initial] at ho

omit [DecidableEq K] in
/-- What becomes of an object when all of them are updated -/
theorem object_map_cases {objects objects' : List (QueueEntry K)}
    {φ : Nat → QueueEntry K → QueueEntry K}
    (hobjects : ∀ e : Nat, objects'[e]? = (objects[e]?).map (φ e)) {e : Nat} {o' : QueueEntry K}
    (ho' : objects'[e]? = some o') : ∃ o, objects[e]? = some o ∧ φ e o = o' := by
  rw [hobjects] at ho'
  exact Option.map_eq_some_iff.mp ho'

/-- Entries and objects are updated, and each object is kept for itself. -/
theorem kept_of_update {s s' : Writer K} (h : Kept s) {φ : Nat → QueueEntry K → QueueEntry K}
    (hobjects : ∀ e : Nat, s'.objects[e]? = (s.objects[e]?).map (φ e))
    (hdata : ∀ e o, (φ e o).key = o.key ∧ (φ e o).metadata = o.metadata)
    (hnotes : ∀ e o, (o.reported = true → (φ e o).reported = true) ∧
      (o.purged = true → (φ e o).purged = true))
    (hentries : ∀ e o, s.objects[e]? = some o → o.metadata = false →
      s.entries.lookup o.key = some e →
      s'.entries.lookup o.key = some e ∨ (φ e o).reported = true ∨ (φ e o).purged = true) :
    Kept s' := by
  intro e o' ho' hmeta
  obtain ⟨o, ho, rfl⟩ := object_map_cases hobjects ho'
  rw [(hdata e o).2] at hmeta
  rw [(hdata e o).1]
  rcases h e o ho hmeta with hlook | hreported | hpurged
  · exact hentries e o ho hmeta hlook
  · exact Or.inr (Or.inl ((hnotes e o).1 hreported))
  · exact Or.inr (Or.inr ((hnotes e o).2 hpurged))

theorem WorkerStep.kept {s s' : Writer K} (h : Kept s) (hstep : WorkerStep s s') : Kept s' := by
  obtain ⟨hentries, hobjects⟩ := hstep.same
  intro e o ho
  rw [hobjects] at ho
  rw [hentries]
  exact h e o ho

theorem Admits.kept {s s' : Writer K} (h : Kept s) {g : Nat} {w w' : Worker} {es : List Nat}
    (ha : Admits s s' g w w' es) : Kept s' := by
  refine kept_of_update h ha.objects ?_ ?_ ?_
  · intro e o
    split <;> exact ⟨rfl, rfl⟩
  · intro e o
    split <;> exact ⟨id, id⟩
  · intro e o _ _ hlook
    rw [ha.entries]
    exact Or.inl hlook

theorem reset_kept {s : Writer K} (h : Kept s) : Kept s.reset := by
  refine kept_of_update h (fun _ => List.getElem?_map) ?_ ?_ ?_
  · exact fun _ _ => ⟨rfl, rfl⟩
  · exact fun _ _ => ⟨id, id⟩
  · exact fun _ _ _ _ hlook => Or.inl hlook

/-- A purge is what becomes of the entries that it drops. -/
theorem clear_kept {s : Writer K} (h : Kept s) : Kept s.clear := by
  refine kept_of_update h (fun _ => List.getElem?_mapIdx) ?_ ?_ ?_
  · intro e o
    split <;> exact ⟨rfl, rfl⟩
  · intro e o
    split
    · exact ⟨id, fun _ => rfl⟩
    · exact ⟨id, id⟩
  · intro e o _ _ hlook
    rw [if_pos hlook]
    exact Or.inr (Or.inr rfl)

theorem flushed_kept {s : Writer K} (h : Kept s) (key : K) (ok : Bool) :
    Kept (s.flushed key ok) := by
  rcases flushed_cases s key ok with heq | ⟨e, hk, -, -, heq⟩
  · rw [heq]
    exact h
  · rw [heq]
    refine kept_of_update h (fun e' => getElem?_updateObject s e _ e') ?_ ?_ ?_
    · intro e' o
      split <;> exact ⟨rfl, rfl⟩
    · intro e' o
      split
      · exact ⟨fun _ => rfl, id⟩
      · exact ⟨id, id⟩
    · intro e' o _ _ hlook
      by_cases heq : e' = e
      · rw [if_pos heq]
        exact Or.inr (Or.inl rfl)
      · refine Or.inl ?_
        show (s.entries.erase key).lookup o.key = some e'
        rw [Dict.lookup_erase, if_neg, hlook]
        intro hkey
        rw [hkey, hk, Option.some.injEq] at hlook
        exact heq hlook.symm

theorem finish_kept {s : Writer K} (h : Kept s) {g e : Nat} {outcome : Outcome}
    (hkeeps : ¬ Refused s g e outcome) : Kept (s.finish g e outcome) := by
  rcases finish_cases s g e outcome with heq | ⟨w, o, hw, ho, hmem, heq⟩
  · rw [heq]
    exact h
  · rw [heq]
    refine kept_of_update h (fun e' => getElem?_updateObject s e _ e') ?_ ?_ ?_
    · intro e' o'
      split <;> exact ⟨rfl, rfl⟩
    · intro e' o'
      split
      · exact ⟨fun hreported => by simp [settle, hreported], id⟩
      · exact ⟨id, id⟩
    · intro e' o' ho' hmeta hlook
      by_cases heq : e' = e
      · rw [heq, ho, Option.some.injEq] at ho'
        rw [if_pos heq]
        rw [← ho'] at hmeta hlook ⊢
        rw [heq] at hlook ⊢
        cases outcome with
        | raised =>
          -- the entry of a buffer stays after an exception
          refine Or.inl ?_
          show (entriesAfter s e o .raised).lookup o.key = some e
          unfold entriesAfter
          rw [if_neg, hlook]
          rintro ⟨hno | hno, -⟩
          · exact hno rfl
          · rw [hmeta] at hno
            cases hno
        | returned ok =>
          cases ok with
          | true => exact Or.inr (Or.inl (by simp [settle]))
          | false => exact absurd ⟨rfl, w, o, hw, hmem, ho, hmeta, hlook⟩ hkeeps
      · exact Or.inl (entriesAfter_other heq hlook)

theorem close_kept {s : Writer K} (h : Kept s) (g : Nat) : Kept (s.close g) := by
  rcases close_cases s g with heq | ⟨w, -, -, -, heq⟩
  · rw [heq]
    exact h
  · rw [heq]
    exact reset_kept h

theorem register_kept {s : Writer K} (h : Kept s) (key : K) (metadata : Bool) :
    Kept (s.register key metadata) := by
  rcases register_cases s key metadata with heq | ⟨hnone, heq⟩
  · rw [heq]
    exact h
  · rw [heq]
    intro e o ho hmeta
    show (s.entries.set key s.objects.length).lookup o.key = some e ∨ _
    rw [Dict.lookup_set]
    rcases object_append_cases ho with ho | ⟨he, rfl⟩
    · rcases h e o ho hmeta with hlook | hrest
      · rw [if_neg, hlook]
        · exact Or.inl rfl
        · intro hkey
          rw [hkey, hnone] at hlook
          cases hlook
      · exact Or.inr hrest
    · rw [if_pos rfl, he]
      exact Or.inl rfl

omit [DecidableEq K] in
theorem ensureWorker_same (s : Writer K) :
    s.ensureWorker.entries = s.entries ∧ s.ensureWorker.objects = s.objects := by
  rcases ensureWorker_cases s with ⟨heq, -⟩ | ⟨-, heq⟩
  · rw [heq]
    exact ⟨rfl, rfl⟩
  · rw [heq]
    exact ⟨rfl, rfl⟩

/-- A step that takes nothing away unwritten keeps all that is kept. -/
theorem kept_step {s : Writer K} (hsound : Sound s) (h : Kept s) {st : Step K}
    (hkeeps : Keeps s st) : Kept (step s st).1 := by
  cases st with
  | register key metadata => exact register_kept h key metadata
  | ensureWorker =>
    intro e o ho hmeta
    change s.ensureWorker.objects[e]? = some o at ho
    rw [(ensureWorker_same s).2] at ho
    show s.ensureWorker.entries.lookup o.key = some e ∨ _
    rw [(ensureWorker_same s).1]
    exact h e o ho hmeta
  | start g => exact (start_step hsound g).kept h
  | scan g =>
    rcases scan_step hsound g with heq | ⟨w, hw, -, ha⟩
    · show Kept (s.scan g)
      rw [heq]
      exact h
    · exact ha.kept h
  | enqueue e => exact (enqueue_step hsound e).kept h
  | callSoon g c => exact (callSoon_step hsound g c).kept h
  | callback g =>
    rcases callback_step hsound g with hstep | ⟨w, w', es, hw, ha⟩
    · exact hstep.kept h
    · exact ha.kept h
  | take g => exact (take_step hsound g).kept h
  | promised g => exact (promised_step hsound g).kept h
  | finish g e outcome => exact finish_kept h hkeeps
  | close g => exact close_kept h g
  | reset => exact reset_kept h
  | clear => exact clear_kept h
  | flushed key ok => exact flushed_kept h key ok

/-! ## §3. What is in hand once. -/

/-- How often an entry is in the hands of the workers -/
def held (s : Writer K) (e : Nat) : Nat := (s.workers.map fun w => (hand w).count e).sum

/-- How often an entry is being processed -/
def processed (s : Writer K) (e : Nat) : Nat :=
  (s.workers.map fun w => (processing w).count e).sum

omit [DecidableEq K] in
theorem processed_le_held (s : Writer K) (e : Nat) : processed s e ≤ held s e :=
  List.sum_le_sum fun w _ => processing_count w e

omit [DecidableEq K] in
/-- Only the hands of the worker that changed count differently. -/
theorem held_setWorker {s : Writer K} {g : Nat} {w : Worker} (hw : s.workers[g]? = some w)
    (w' : Worker) (e : Nat) :
    held (s.setWorker g w') e + (hand w).count e = held s e + (hand w').count e := by
  obtain ⟨hg, rfl⟩ := List.getElem?_eq_some_iff.mp hw
  have hsplit : held s e =
      ((s.workers.take g).map fun w => (hand w).count e).sum + (hand s.workers[g]).count e +
        ((s.workers.drop (g + 1)).map fun w => (hand w).count e).sum := by
    unfold held
    conv => lhs; rw [← List.take_append_drop g s.workers, List.drop_eq_getElem_cons hg]
    rw [List.map_append, List.sum_append, List.map_cons, List.sum_cons]
    omega
  have hset : held (s.setWorker g w') e =
      ((s.workers.take g).map fun w => (hand w).count e).sum + (hand w').count e +
        ((s.workers.drop (g + 1)).map fun w => (hand w).count e).sum := by
    show ((s.workers.set g w').map fun w => (hand w).count e).sum = _
    rw [List.map_set, List.sum_set, if_pos (by rwa [List.length_map]), List.map_take, List.map_drop]
  omega

omit [DecidableEq K] in
theorem held_pos {s : Writer K} {e : Nat} (h : 0 < held s e) :
    ∃ (g : Nat) (w : Worker), s.workers[g]? = some w ∧ e ∈ hand w := by
  obtain ⟨n, hn, hpos⟩ : ∃ n ∈ s.workers.map fun w => (hand w).count e, 0 < n := by
    by_contra hno
    have hzero : held s e = 0 := List.sum_eq_zero fun n hn => by
      by_contra hne
      exact hno ⟨n, hn, Nat.pos_of_ne_zero hne⟩
    omega
  obtain ⟨w, hw, rfl⟩ := List.mem_map.mp hn
  obtain ⟨g, hg⟩ := List.mem_iff_getElem?.mp hw
  exact ⟨g, w, hg, List.count_pos_iff.mp hpos⟩

/-- No entry is in hand twice, since what is in hand and not done is flagged. -/
structure Single (s : Writer K) : Prop where
  once : ∀ e, held s e ≤ 1
  flagged : ∀ (g : Nat) (w : Worker) (e : Nat) (o : QueueEntry K), s.workers[g]? = some w →
    e ∈ hand w → s.objects[e]? = some o → o.future = .pending → o.queued = true

omit [DecidableEq K] in
theorem initial_single : Single (initial : Writer K) := by
  refine ⟨?_, ?_⟩
  · exact fun _ => Nat.zero_le 1
  · intro g w e o hw
    simp [initial] at hw

omit [DecidableEq K] in
theorem setWorker_single {s : Writer K} (h : Single s) {g : Nat} {w w' : Worker}
    (hw : s.workers[g]? = some w) (hm : Moves s w w') : Single (s.setWorker g w') := by
  refine ⟨?_, ?_⟩
  · intro e
    have hheld := held_setWorker hw w' e
    have hcount := hm.count e
    have hone := h.once e
    omega
  · intro g' v e o hv he ho hpending
    rcases setWorker_cases hw hv with ⟨-, rfl⟩ | ⟨-, hv⟩
    · exact h.flagged g w e o hw (hm.mem he) ho hpending
    · exact h.flagged g' v e o hv he ho hpending

omit [DecidableEq K] in
theorem WorkerStep.single {s s' : Writer K} (h : Single s) (hstep : WorkerStep s s') :
    Single s' := by
  rcases hstep with rfl | ⟨g, w, w', hw, hm, rfl⟩
  · exact h
  · exact setWorker_single h hw hm

omit [DecidableEq K] in
/-- What is taken up was not flagged, so it was in nobody's hands. -/
theorem Admits.single {s s' : Writer K} (h : Single s) {g : Nat} {w w' : Worker} {es : List Nat}
    (hw : s.workers[g]? = some w) (ha : Admits s s' g w w' es) : Single s' := by
  have hfree : ∀ e ∈ es, held s e = 0 := by
    intro e he
    obtain ⟨o, ho, hpending, hunflagged⟩ := ha.pending e he
    by_contra hne
    obtain ⟨g', v, hv, hve⟩ := held_pos (Nat.pos_of_ne_zero hne)
    rw [h.flagged g' v e o hv hve ho hpending] at hunflagged
    cases hunflagged
  refine ⟨?_, ?_⟩
  · intro e
    have hheld : held s' e = held (s.setWorker g w') e := by
      unfold held
      rw [ha.workers]
    have hset := held_setWorker hw w' e
    rw [ha.count e] at hset
    by_cases he : e ∈ es
    · have hzero := hfree e he
      have hnodup := List.nodup_iff_count_le_one.mp ha.nodup e
      omega
    · have hnone := List.count_eq_zero.mpr he
      have hone := h.once e
      omega
  · intro g' v e o' hv he ho' hpending
    obtain ⟨o, ho, rfl⟩ := object_map_cases ha.objects ho'
    by_cases hes : e ∈ es
    · rw [if_pos hes]
    · rw [if_neg hes] at hpending ⊢
      rw [ha.workers] at hv
      rcases setWorker_cases hw hv with ⟨-, rfl⟩ | ⟨-, hv⟩
      · exact h.flagged g w e o hw ((ha.mem e he).resolve_right hes) ho hpending
      · exact h.flagged g' v e o hv he ho hpending

/-- The objects are settled, and the flags that are up under a pending entry
stay up. -/
theorem settles_single {s : Writer K} (h : Single s) {entries : Dict K Nat}
    {φ : Nat → QueueEntry K → QueueEntry K} (hφ : Settles s entries φ)
    {objects : List (QueueEntry K)}
    (hobjects : ∀ e : Nat, objects[e]? = (s.objects[e]?).map (φ e))
    (hflag : ∀ e o, (φ e o).queued = o.queued) :
    Single { s with entries := entries, objects := objects } := by
  refine ⟨h.once, ?_⟩
  · intro g w e o' hw he ho' hpending
    obtain ⟨o, ho, rfl⟩ := object_map_cases hobjects ho'
    rw [hflag]
    exact h.flagged g w e o hw he ho (hφ.pending e o ho hpending).1

omit [DecidableEq K] in
/-- The flags go down where nobody but `g` holds anything, and `g` ends. -/
theorem reset_single {s : Writer K} (h : Single s) (hidle : ¬ Busy s none) : Single s.reset := by
  refine ⟨h.once, ?_⟩
  · intro g w e o' hw he ho' hpending
    change (s.objects.map _)[e]? = some o' at ho'
    rw [List.getElem?_map] at ho'
    obtain ⟨o, ho, rfl⟩ := Option.map_eq_some_iff.mp ho'
    exact absurd ⟨g, w, e, o, nofun, hw, he, ho, hpending⟩ hidle

omit [DecidableEq K] in
theorem hand_over : hand Worker.over = [] := rfl

omit [DecidableEq K] in
theorem close_single {s : Writer K} (h : Single s) {g : Nat} (hidle : ¬ Busy s (some g)) :
    Single (s.close g) := by
  rcases close_cases s g with heq | ⟨w, hw, -, -, heq⟩
  · rw [heq]
    exact h
  · rw [heq]
    refine ⟨?_, ?_⟩
    · intro e
      have hset := held_setWorker (s := s.reset) hw .over e
      have hreset : held s.reset e = held s e := rfl
      have hone := h.once e
      rw [hand_over, List.count_nil] at hset
      show held (s.reset.setWorker g .over) e ≤ 1
      omega
    · intro g' v e o' hv he ho' hpending
      change (s.objects.map _)[e]? = some o' at ho'
      rw [List.getElem?_map] at ho'
      obtain ⟨o, ho, rfl⟩ := Option.map_eq_some_iff.mp ho'
      rcases setWorker_cases (s := s.reset) hw hv with ⟨-, rfl⟩ | ⟨hne, hv⟩
      · cases he
      · refine absurd ⟨g', v, e, o, ?_, hv, he, ho, hpending⟩ hidle
        intro heq
        exact hne (Option.some.inj heq).symm

theorem finish_single {s : Writer K} (hsound : Sound s) (h : Single s) (g e : Nat)
    (outcome : Outcome) : Single (s.finish g e outcome) := by
  rcases finish_cases s g e outcome with heq | ⟨w, o, hw, ho, hmem, heq⟩
  · rw [heq]
    exact h
  · rw [heq]
    refine setWorker_single (settles_single h (finish_settles hsound ho outcome) ?_ ?_) hw
      (finish_moves hsound hw hmem outcome ho)
    · exact fun e' => getElem?_updateObject s e _ e'
    · intro e' o'
      split <;> rfl

theorem register_single {s : Writer K} (hsound : Sound s) (h : Single s) (key : K) (metadata : Bool) :
    Single (s.register key metadata) := by
  rcases register_cases s key metadata with heq | ⟨-, heq⟩
  · rw [heq]
    exact h
  · rw [heq]
    refine ⟨h.once, ?_⟩
    · intro g w e o hw he ho hpending
      -- nobody holds the new entry
      rcases object_append_cases ho with ho | ⟨hnew, -⟩
      · exact h.flagged g w e o hw he ho hpending
      · have hlt := hsound.known g w e hw he
        omega

omit [DecidableEq K] in
theorem ensureWorker_single {s : Writer K} (h : Single s) : Single s.ensureWorker := by
  rcases ensureWorker_cases s with ⟨heq, -⟩ | ⟨-, heq⟩
  · rw [heq]
    exact h
  · rw [heq]
    refine ⟨?_, ?_⟩
    · intro e
      show ((s.workers ++ [_]).map _).sum ≤ 1
      rw [List.map_append, List.sum_append]
      exact h.once e
    · intro g w e o hw he
      rcases worker_append_cases hw with hw | ⟨-, rfl⟩
      · exact h.flagged g w e o hw he
      · cases he

/-- A step that leaves the flags where they are up keeps entries in one hand. -/
theorem single_step {s : Writer K} (hsound : Sound s) (h : Single s) {st : Step K}
    (hflags : KeepsFlags s st) : Single (step s st).1 := by
  cases st with
  | register key metadata => exact register_single hsound h key metadata
  | ensureWorker => exact ensureWorker_single h
  | start g => exact (start_step hsound g).single h
  | scan g =>
    rcases scan_step hsound g with heq | ⟨w, hw, -, ha⟩
    · show Single (s.scan g)
      rw [heq]
      exact h
    · exact ha.single h hw
  | enqueue e => exact (enqueue_step hsound e).single h
  | callSoon g c => exact (callSoon_step hsound g c).single h
  | callback g =>
    rcases callback_step hsound g with hstep | ⟨w, w', es, hw, ha⟩
    · exact hstep.single h
    · exact ha.single h hw
  | take g => exact (take_step hsound g).single h
  | promised g => exact (promised_step hsound g).single h
  | finish g e outcome => exact finish_single hsound h g e outcome
  | close g => exact close_single h hflags
  | reset => exact reset_single h hflags
  | clear =>
    -- the entries are dropped, and no worker is handed anything
    refine settles_single h (clear_settles s hsound) (fun _ => List.getElem?_mapIdx) ?_
    intro e o
    split <;> rfl
  | flushed key ok =>
    show Single (s.flushed key ok)
    rcases flushed_cases s key ok with heq | ⟨e, hk, -, -, heq⟩
    · rw [heq]
      exact h
    · rw [heq]
      refine settles_single h (flushed_settles hsound hk)
        (fun e' => getElem?_updateObject s e _ e') ?_
      intro e' o
      split <;> rfl

/-! ## §4. What a new worker takes over. -/

/-- A restart: every entry that is not done is in the hands of a worker. -/
theorem scan_takes {s : Writer K} (h : Sound s) {g : Nat} {w : Worker}
    (hw : s.workers[g]? = some w) (hstarted : w.status = .started) {k : K} {e : Nat}
    {o : QueueEntry K} (hk : (s.scan g).entries.lookup k = some e)
    (ho : (s.scan g).objects[e]? = some o) (hopen : o.future.done = false) :
    ∃ (g' : Nat) (v : Worker), (s.scan g).workers[g']? = some v ∧ v.loops = true ∧ e ∈ hand v := by
  have hscan : Sound (s.scan g) := step_sound h (.scan g)
  have hpending : o.future = .pending := by
    rcases hscan.heldOpen k e o hk ho with hpending | ⟨hexception, -⟩
    · exact hpending
    · rw [hexception] at hopen
      cases hopen
  by_cases hqueued : o.queued = true
  · exact hscan.tracked e o ho hqueued hpending
  · rcases scan_step h g with heq | ⟨w', hw', -, ha⟩
    · exfalso
      -- a worker that is started does scan
      have hstatus : (s.scan g).workers[g]? =
          some { w with status := .running, queue := s.pendingEntries.map some } := by
        unfold scan
        rw [hw]
        simp only
        rw [if_pos hstarted]
        show (s.setWorker g _).workers[g]? = _
        rw [getElem?_setWorker hw, if_pos rfl]
      rw [heq, hw, Option.some.injEq] at hstatus
      have hrunning : w.status = .running := by rw [hstatus]
      rw [hstarted] at hrunning
      cases hrunning
    · exfalso
      obtain ⟨o', ho', rfl⟩ := object_map_cases ha.objects ho
      rw [ha.entries] at hk
      by_cases he : e ∈ s.pendingEntries
      · rw [if_pos he] at hqueued
        exact hqueued rfl
      · rw [if_neg he] at hqueued hpending
        exact he (mem_pendingEntries.mpr ⟨⟨k, hk⟩, o', ho', hpending, by simpa using hqueued⟩)

/-! ## §5. All runs. -/

/-- Whatever the order of registrations, steps of workers, failures, stops,
restarts and flushes: where no write returns without success, a registered
buffer stays an entry until it is written or purged; where no flags are taken
down under a worker with work in hand, no entry is processed twice at a time;
and in every run, a restarted worker finds all that is not done queued or in
flight. -/
theorem writerDurability (steps : List (Step K)) :
    (Run.StepsMeet step (fun _ => Keeps) initial steps → Kept (after steps)) ∧
    (Run.StepsMeet step (fun _ => KeepsFlags) initial steps →
      ∀ e, processed (after steps) e ≤ 1) ∧
    (∀ (g : Nat) (w : Worker), (after steps).workers[g]? = some w → w.status = .started →
      ∀ k e o, (after (steps ++ [.scan g])).entries.lookup k = some e →
        (after (steps ++ [.scan g])).objects[e]? = some o → o.future.done = false →
        ∃ (g' : Nat) (v : Worker), (after (steps ++ [.scan g])).workers[g']? = some v ∧
          v.loops = true ∧ e ∈ hand v) := by
  refine ⟨?_, ?_, ?_⟩
  · intro hkeeps
    refine (Run.exec_traced_invariant step (fun _ => Keeps) (fun _ s => Sound s ∧ Kept s)
      ⟨initial_sound, initial_kept⟩ ?_ steps hkeeps).2
    intro _ s st ⟨hsound, hkept⟩ hst
    exact ⟨step_sound hsound st, kept_step hsound hkept hst⟩
  · intro hflags e
    have hsingle := (Run.exec_traced_invariant step (fun _ => KeepsFlags)
      (fun _ s => Sound s ∧ Single s) ⟨initial_sound, initial_single⟩ ?_ steps hflags).2
    · exact le_trans (processed_le_held _ e) (hsingle.once e)
    · intro _ s st ⟨hsound, hsingle⟩ hst
      exact ⟨step_sound hsound st, single_step hsound hsingle hst⟩
  · intro g w hw hstarted k e o hk ho hopen
    have hscan : after (steps ++ [Step.scan g]) = (after steps).scan g :=
      Run.exec_snoc step initial steps (.scan g)
    rw [hscan] at hk ho ⊢
    exact scan_takes (after_sound steps) hw hstarted hk ho hopen

/-- A write raises, the worker stops, and a second one is started for a second
buffer. -/
def restartRun : List (Step Nat) :=
  [.register 7 false, .ensureWorker, .start 0, .scan 0, .take 0, .promised 0,
    .callSoon 0 .stop, .callback 0, .take 0, .finish 0 0 .raised, .close 0, .reset,
    .register 8 false, .ensureWorker, .start 1]

theorem not_busy {s : Writer Nat} (h : ∀ w ∈ s.workers, hand w = []) (spared : Option Nat) :
    ¬ Busy s spared := by
  rintro ⟨g, w, e, o, -, hw, he, -⟩
  rw [h w (List.mem_of_getElem? hw)] at he
  cases he

theorem restartRun_keeps : Run.StepsMeet step (fun _ => Keeps) initial restartRun :=
  .cons _ trivial <| .cons _ trivial <| .cons _ trivial <| .cons _ trivial <| .cons _ trivial <|
  .cons _ trivial <| .cons _ trivial <| .cons _ trivial <| .cons _ trivial <|
  .cons _ (fun h => nomatch h.1) <| .cons _ trivial <| .cons _ trivial <| .cons _ trivial <|
  .cons _ trivial <| .cons _ trivial <| .nil _ _ _

theorem restartRun_flags : Run.StepsMeet step (fun _ => KeepsFlags) initial restartRun :=
  .cons _ trivial <| .cons _ trivial <| .cons _ trivial <| .cons _ trivial <| .cons _ trivial <|
  .cons _ trivial <| .cons _ trivial <| .cons _ trivial <| .cons _ trivial <| .cons _ trivial <|
  .cons _ (not_busy (by decide) _) <| .cons _ (not_busy (by decide) _) <| .cons _ trivial <|
  .cons _ trivial <| .cons _ trivial <| .nil _ _ _

theorem writerDurability_restart :
    Kept (after restartRun) ∧ processed (after restartRun) 0 ≤ 1 ∧
    ∃ (g : Nat) (v : Worker), (after (restartRun ++ [.scan 1])).workers[g]? = some v ∧
      v.loops = true ∧ 1 ∈ hand v := by
  obtain ⟨hkept, honce, htakes⟩ := writerDurability restartRun
  refine ⟨hkept restartRun_keeps, honce restartRun_flags 0, ?_⟩
  exact htakes 1 _ rfl rfl 8 1 _ (by decide) rfl rfl

/-- A buffer is registered, and its one write returns `False`. -/
def refusedRun : List (Step Nat) :=
  [.register 7 false, .ensureWorker, .start 0, .scan 0, .take 0, .promised 0,
    .finish 0 0 (.returned false)]

/-- A worker is stopped; before the caller of the stop takes the flags down, a
buffer is registered and a new worker takes it up.  Then the buffer is
registered again. -/
def lateResetRun : List (Step Nat) :=
  [.ensureWorker, .start 0, .scan 0, .callSoon 0 .stop, .callback 0, .take 0, .close 0,
    .register 7 false, .ensureWorker, .start 1, .scan 1, .reset,
    .register 7 false, .ensureWorker, .enqueue 0, .callback 1,
    .take 1, .promised 1, .take 1]

/-- A refused write loses its buffer, and a late end of a stop lets a buffer be
processed twice at a time. -/
theorem refused_write_lost :
    ¬ Kept (after refusedRun) ∧ processed (after lateResetRun) 0 = 2 := by
  refine ⟨?_, by decide⟩
  intro hkept
  rcases hkept 0 ⟨7, false, .result false, true, false, false⟩ rfl rfl with hlook | hrep | hpurged
  · exact absurd hlook (by decide)
  · cases hrep
  · cases hpurged

end SeamlessCore.BufferWriter
