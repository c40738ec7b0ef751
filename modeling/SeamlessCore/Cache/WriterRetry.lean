/-
  SeamlessCore.Cache.WriterRetry — registering a buffer again after a failure.

  A write that raises leaves its entry in place, with the exception in its
  future.  Registration finds the entry, and the enqueueing, the takeover by a
  new worker and `Buffer.write` all ask the future whether there is work: it
  is done, so there is none.  The buffer is attempted again only once the
  entry is gone, by a purge or because `flush` has written it.

  Main results:
    * `waiting_reaches` — a pending entry can always come to an attempt, by
      steps of the workers alone and a worker kept running;
    * `dead_step` — without a pending entry, no such step makes an attempt;
    * `failedWriteRetried` — registering or writing a buffer leads to an
      attempt if and only if there is no failed entry of it;
    * `failed_stays` — a failed entry stays until a purge, a write by `flush`
      or the success of another attempt.
-/
import SeamlessCore.Cache.WriterInvariant

namespace SeamlessCore.BufferWriter

variable {K : Type} [DecidableEq K]

open Writer

/-! ## §1. Attempts. -/

/-- What the writer does by itself: the steps of its workers, with any outcome
of a write, and what every call of it does to keep a worker running and to
enqueue an entry. -/
def OwnStep : Step K → Prop
  | .ensureWorker | .start _ | .scan _ | .enqueue _ | .callback _ | .take _ | .promised _
  | .finish _ _ _ | .close _ => True
  | _ => False

/-- The step is not a purge, and not a write of the buffer by `flush`. -/
def Leaves (c : K) : Step K → Prop
  | .clear => False
  | .flushed k ok => ¬ (k = c ∧ ok = true)
  | _ => True

/-- An attempt to write the buffer is under way, or about to begin. -/
def Attempting (c : K) (s : Writer K) : Prop :=
  ∃ (g : Nat) (w : Worker) (e : Nat) (o : QueueEntry K), s.workers[g]? = some w ∧
    s.objects[e]? = some o ∧ o.key = c ∧
    (w.promising = some e ∨ e ∈ w.inflight ∧ o.future = .pending)

/-- The writer can come to an attempt by itself. -/
def CanAttempt (c : K) (s : Writer K) : Prop := Run.Reaches step OwnStep (Attempting c) s

/-- The writer holds a failed entry of the buffer, and is not about to make
another attempt. -/
def Failed (c : K) (s : Writer K) : Prop :=
  (∃ e o, s.entries.lookup c = some e ∧ s.objects[e]? = some o ∧ o.future = .exception) ∧
  ∀ (g : Nat) (w : Worker) (e : Nat) (o : QueueEntry K), s.workers[g]? = some w →
    w.promising = some e → s.objects[e]? = some o → o.key ≠ c

/-- The entry `e` is one of the buffer and pending. -/
def Waits (c : K) (e : Nat) (s : Writer K) : Prop :=
  ∃ o, s.objects[e]? = some o ∧ o.key = c ∧ o.future = .pending

/-! ## §2. What a step does to a pending entry. -/

theorem CanAttempt.next {c : K} {s : Writer K} (st : Step K) (hst : OwnStep st)
    (h : CanAttempt c (step s st).1) : CanAttempt c s :=
  Run.Reaches.next step st hst h

/-- No entry of the buffer is pending, and none awaits its promise. -/
structure Dead (c : K) (s : Writer K) : Prop where
  done : ∀ (e : Nat) (o : QueueEntry K), s.objects[e]? = some o → o.key = c → o.future ≠ .pending
  unpromised : ∀ (g : Nat) (w : Worker) (e : Nat) (o : QueueEntry K), s.workers[g]? = some w →
    w.promising = some e → s.objects[e]? = some o → o.key ≠ c

omit [DecidableEq K] in
theorem Dead.not_attempting {c : K} {s : Writer K} (h : Dead c s) : ¬ Attempting c s := by
  rintro ⟨g, w, e, o, hw, ho, hkey, hpromising | ⟨-, hpending⟩⟩
  · exact h.unpromised g w e o hw hpromising ho hkey
  · exact h.done e o ho hkey hpending

omit [DecidableEq K] in
/-- A change of a worker that leaves what it promises -/
theorem promising_setWorker {s : Writer K} {g : Nat} {w w' : Worker}
    {g' e : Nat} {v : Worker} (hw : s.workers[g]? = some w)
    (hv : (s.setWorker g w').workers[g']? = some v) (hsame : w'.promising = w.promising)
    (hpromising : v.promising = some e) :
    ∃ v', s.workers[g']? = some v' ∧ v'.promising = some e := by
  rcases setWorker_cases hw hv with ⟨rfl, rfl⟩ | ⟨-, hv⟩
  · exact ⟨w, hw, by rw [← hsame, hpromising]⟩
  · exact ⟨v, hv, hpromising⟩

omit [DecidableEq K] in
/-- What a worker takes to promise is pending. -/
theorem promising_take {s : Writer K} {g g' e : Nat} {v : Worker}
    (hv : (s.take g).workers[g']? = some v) (hpromising : v.promising = some e) :
    (∃ v', s.workers[g']? = some v' ∧ v'.promising = some e) ∨
      ∃ o, s.objects[e]? = some o ∧ o.future = .pending := by
  unfold take at hv
  cases hw : s.workers[g]? with
  | none =>
    rw [hw] at hv
    exact Or.inl ⟨v, hv, hpromising⟩
  | some w =>
    rw [hw] at hv
    simp only at hv
    split at hv
    · cases hqueue : w.queue with
      | nil =>
        rw [hqueue] at hv
        exact Or.inl ⟨v, hv, hpromising⟩
      | cons head rest =>
        rw [hqueue] at hv
        cases head with
        | none =>
          simp only at hv
          exact Or.inl (promising_setWorker hw hv rfl hpromising)
        | some e' =>
          simp only at hv
          split at hv
          · next hopen =>
            -- only an entry whose future is open is promised
            rcases setWorker_cases hw hv with ⟨-, rfl⟩ | ⟨-, hv⟩
            · rw [← Option.some.inj hpromising]
              cases ho : s.objects[e']? with
              | none =>
                rw [ho] at hopen
                cases hopen
              | some o =>
                refine Or.inr ⟨o, rfl, ?_⟩
                rw [ho] at hopen
                cases hfuture : o.future <;> simp_all [Future.done]
            · exact Or.inl ⟨v, hv, hpromising⟩
          · exact Or.inl (promising_setWorker hw hv rfl hpromising)
    · exact Or.inl ⟨v, hv, hpromising⟩

/-- What a worker promises after a step, it did before, or it is pending. -/
theorem promising_step {s : Writer K} (st : Step K) {g e : Nat} {v : Worker}
    (hv : (step s st).1.workers[g]? = some v) (hpromising : v.promising = some e) :
    (∃ v', s.workers[g]? = some v' ∧ v'.promising = some e) ∨
      ∃ o, s.objects[e]? = some o ∧ o.future = .pending := by
  -- a callback that is queued promises nothing yet
  have hsoon : ∀ g' k, (s.callSoon g' k).workers[g]? = some v →
      ∃ v', s.workers[g]? = some v' ∧ v'.promising = some e := by
    intro g' k hv
    rcases callSoon_cases s g' k with heq | ⟨w, hw, -, heq⟩
    · rw [heq] at hv
      exact ⟨v, hv, hpromising⟩
    · rw [heq] at hv
      exact promising_setWorker hw hv rfl hpromising
  cases st with
  | register key metadata =>
    change (s.register key metadata).workers[g]? = some v at hv
    rcases register_cases s key metadata with heq | ⟨-, heq⟩ <;> rw [heq] at hv
    · exact Or.inl ⟨v, hv, hpromising⟩
    · exact Or.inl ⟨v, hv, hpromising⟩
  | ensureWorker =>
    change s.ensureWorker.workers[g]? = some v at hv
    rcases ensureWorker_cases s with ⟨heq, -⟩ | ⟨-, heq⟩ <;> rw [heq] at hv
    · exact Or.inl ⟨v, hv, hpromising⟩
    · rcases worker_append_cases hv with hv | ⟨-, rfl⟩
      · exact Or.inl ⟨v, hv, hpromising⟩
      · cases hpromising
  | start g' =>
    change (s.start g').workers[g]? = some v at hv
    unfold start at hv
    cases hw : s.workers[g']? with
    | none =>
      rw [hw] at hv
      exact Or.inl ⟨v, hv, hpromising⟩
    | some w =>
      rw [hw] at hv
      simp only at hv
      split at hv
      · exact Or.inl (promising_setWorker hw hv rfl hpromising)
      · exact Or.inl ⟨v, hv, hpromising⟩
  | scan g' =>
    change (s.scan g').workers[g]? = some v at hv
    unfold scan at hv
    cases hw : s.workers[g']? with
    | none =>
      rw [hw] at hv
      exact Or.inl ⟨v, hv, hpromising⟩
    | some w =>
      rw [hw] at hv
      simp only at hv
      split at hv
      · exact Or.inl (promising_setWorker hw hv rfl hpromising)
      · exact Or.inl ⟨v, hv, hpromising⟩
  | enqueue e' =>
    change (s.enqueue e').workers[g]? = some v at hv
    unfold enqueue at hv
    split at hv
    · exact Or.inl ⟨v, hv, hpromising⟩
    · exact Or.inl (hsoon _ _ hv)
  | callSoon g' k => exact Or.inl (hsoon g' k hv)
  | callback g' =>
    change (s.callback g').workers[g]? = some v at hv
    unfold callback at hv
    cases hw : s.workers[g']? with
    | none =>
      rw [hw] at hv
      exact Or.inl ⟨v, hv, hpromising⟩
    | some w =>
      rw [hw] at hv
      simp only at hv
      split at hv
      · cases hcallbacks : w.callbacks with
        | nil =>
          rw [hcallbacks] at hv
          exact Or.inl ⟨v, hv, hpromising⟩
        | cons k rest =>
          rw [hcallbacks] at hv
          cases k with
          | stop =>
            simp only at hv
            exact Or.inl (promising_setWorker hw hv rfl hpromising)
          | put e' =>
            simp only at hv
            split at hv <;> exact Or.inl (promising_setWorker hw hv rfl hpromising)
      · exact Or.inl ⟨v, hv, hpromising⟩
  | take g' => exact promising_take hv hpromising
  | promised g' =>
    change (s.promised g').workers[g]? = some v at hv
    unfold promised at hv
    cases hw : s.workers[g']? with
    | none =>
      rw [hw] at hv
      exact Or.inl ⟨v, hv, hpromising⟩
    | some w =>
      rw [hw] at hv
      simp only at hv
      split at hv
      · exact Or.inl ⟨v, hv, hpromising⟩
      · rcases setWorker_cases hw hv with ⟨-, rfl⟩ | ⟨-, hv⟩
        · cases hpromising
        · exact Or.inl ⟨v, hv, hpromising⟩
  | finish g' e' outcome =>
    change (s.finish g' e' outcome).workers[g]? = some v at hv
    rcases finish_cases s g' e' outcome with heq | ⟨w, o, hw, -, -, heq⟩ <;> rw [heq] at hv
    · exact Or.inl ⟨v, hv, hpromising⟩
    · exact Or.inl (promising_setWorker hw hv rfl hpromising)
  | close g' =>
    change (s.close g').workers[g]? = some v at hv
    rcases close_cases s g' with heq | ⟨w, hw, -, -, heq⟩ <;> rw [heq] at hv
    · exact Or.inl ⟨v, hv, hpromising⟩
    · rcases setWorker_cases (s := s.reset) hw hv with ⟨-, rfl⟩ | ⟨-, hv⟩
      · cases hpromising
      · exact Or.inl ⟨v, hv, hpromising⟩
  | reset => exact Or.inl ⟨v, hv, hpromising⟩
  | clear => exact Or.inl ⟨v, hv, hpromising⟩
  | flushed key ok =>
    change (s.flushed key ok).workers[g]? = some v at hv
    rcases flushed_cases s key ok with heq | ⟨e', -, -, -, heq⟩ <;> rw [heq] at hv
    · exact Or.inl ⟨v, hv, hpromising⟩
    · exact Or.inl ⟨v, hv, hpromising⟩

/-- An object after a step: it was there, under its key, and a step makes nothing
pending that was done; or it has just been registered. -/
theorem object_step {s : Writer K} (hsound : Sound s) (st : Step K) {e : Nat}
    {o' : QueueEntry K} (ho' : (step s st).1.objects[e]? = some o') :
    (∃ o, s.objects[e]? = some o ∧ o'.key = o.key ∧
      (o'.future = .pending → o.future = .pending)) ∨
    e = s.objects.length ∧ ∃ key metadata, st = .register key metadata := by
  -- three kinds of steps: objects kept, entries admitted, entries settled
  have hsame : ∀ {s' : Writer K}, s'.objects = s.objects → s'.objects[e]? = some o' →
      ∃ o, s.objects[e]? = some o ∧ o'.key = o.key ∧
        (o'.future = .pending → o.future = .pending) := by
    intro s' hobjects ho'
    rw [hobjects] at ho'
    exact ⟨o', ho', rfl, id⟩
  have hadmits : ∀ {s' : Writer K} {g : Nat} {w w' : Worker} {es : List Nat},
      Admits s s' g w w' es → s'.objects[e]? = some o' →
      ∃ o, s.objects[e]? = some o ∧ o'.key = o.key ∧
        (o'.future = .pending → o.future = .pending) := by
    intro s' g w w' es ha ho'
    rw [ha.objects] at ho'
    obtain ⟨o, ho, rfl⟩ := Option.map_eq_some_iff.mp ho'
    refine ⟨o, ho, ?_⟩
    split <;> exact ⟨rfl, id⟩
  have hsettles : ∀ {s' : Writer K} {entries : Dict K Nat}
      {φ : Nat → QueueEntry K → QueueEntry K}, Settles s entries φ →
      (∀ i : Nat, s'.objects[i]? = (s.objects[i]?).map (φ i)) → s'.objects[e]? = some o' →
      ∃ o, s.objects[e]? = some o ∧ o'.key = o.key ∧
        (o'.future = .pending → o.future = .pending) := by
    intro s' entries φ hφ hobjects ho'
    rw [hobjects] at ho'
    obtain ⟨o, ho, rfl⟩ := Option.map_eq_some_iff.mp ho'
    exact ⟨o, ho, (hφ.key e o).1, fun hpending => (hφ.pending e o ho hpending).1⟩
  cases st with
  | register key metadata =>
    change (s.register key metadata).objects[e]? = some o' at ho'
    rcases register_cases s key metadata with heq | ⟨-, heq⟩ <;> rw [heq] at ho'
    · exact Or.inl ⟨o', ho', rfl, id⟩
    · rcases object_append_cases ho' with ho' | ⟨he, -⟩
      · exact Or.inl ⟨o', ho', rfl, id⟩
      · exact Or.inr ⟨he, key, metadata, rfl⟩
  | ensureWorker =>
    refine Or.inl (@hsame s.ensureWorker ?_ ho')
    rcases ensureWorker_cases s with ⟨heq, -⟩ | ⟨-, heq⟩ <;> rw [heq]
  | start g => exact Or.inl (hsame (start_step hsound g).same.2 ho')
  | scan g =>
    rcases scan_step hsound g with heq | ⟨w, -, -, ha⟩
    · exact Or.inl (hsame (congrArg Writer.objects heq) ho')
    · exact Or.inl (hadmits ha ho')
  | enqueue e' => exact Or.inl (hsame (enqueue_step hsound e').same.2 ho')
  | callSoon g k => exact Or.inl (hsame (callSoon_step hsound g k).same.2 ho')
  | callback g =>
    rcases callback_step hsound g with hstep | ⟨w, w', es, -, ha⟩
    · exact Or.inl (hsame hstep.same.2 ho')
    · exact Or.inl (hadmits ha ho')
  | take g => exact Or.inl (hsame (take_step hsound g).same.2 ho')
  | promised g => exact Or.inl (hsame (promised_step hsound g).same.2 ho')
  | finish g e' outcome =>
    change (s.finish g e' outcome).objects[e]? = some o' at ho'
    rcases finish_cases s g e' outcome with heq | ⟨w, o, -, ho, -, heq⟩ <;> rw [heq] at ho'
    · exact Or.inl ⟨o', ho', rfl, id⟩
    · exact Or.inl (hsettles (finish_settles hsound ho outcome)
        (fun i => getElem?_updateObject s e' _ i) ho')
  | close g =>
    change (s.close g).objects[e]? = some o' at ho'
    rcases close_cases s g with heq | ⟨w, -, -, -, heq⟩ <;> rw [heq] at ho'
    · exact Or.inl ⟨o', ho', rfl, id⟩
    · exact Or.inl (hsettles (reset_settles s hsound) (fun _ => List.getElem?_map) ho')
  | reset => exact Or.inl (hsettles (reset_settles s hsound) (fun _ => List.getElem?_map) ho')
  | clear => exact Or.inl (hsettles (clear_settles s hsound) (fun _ => List.getElem?_mapIdx) ho')
  | flushed key ok =>
    change (s.flushed key ok).objects[e]? = some o' at ho'
    rcases flushed_cases s key ok with heq | ⟨e', hk, -, -, heq⟩ <;> rw [heq] at ho'
    · exact Or.inl ⟨o', ho', rfl, id⟩
    · exact Or.inl (hsettles (flushed_settles hsound hk)
        (fun i => getElem?_updateObject s e' _ i) ho')

/-- A failed entry stands in the way of a pending one. -/
theorem Failed.dead {c : K} {s : Writer K} (hsound : Sound s) (h : Failed c s) : Dead c s := by
  obtain ⟨⟨e, o, hk, ho, hexception⟩, hunpromised⟩ := h
  refine ⟨?_, hunpromised⟩
  intro e' o' ho' hkey hpending
  have hlook := hsound.pendingKept e' o' ho' hpending
  rw [hkey, hk, Option.some.injEq] at hlook
  rw [← hlook, ho, Option.some.injEq] at ho'
  rw [← ho', hexception] at hpending
  cases hpending

/-! ## §4. The way of a pending entry. -/

omit [DecidableEq K] in
theorem promised_eq {s : Writer K} {g e : Nat} {w : Worker} (hw : s.workers[g]? = some w)
    (hpromising : w.promising = some e) :
    s.promised g = s.setWorker g { w with promising := none, inflight := w.inflight ++ [e] } := by
  unfold promised
  rw [hw]
  simp only [hpromising]

omit [DecidableEq K] in
theorem Waits.open {c : K} {e : Nat} {s : Writer K} (h : Waits c e s) :
    (s.objects[e]?.any fun o => !o.future.done) = true := by
  obtain ⟨o, ho, -, hpending⟩ := h
  rw [ho, Option.any_some, hpending]
  rfl

/-- The step is not a purge, not a write of the buffer by `flush`, and not the
end without an exception of another attempt of its entry. -/
def Repeats (c : K) (s : Writer K) : Step K → Prop
  | .finish _ e (.returned _) => s.entries.lookup c ≠ some e
  | st => Leaves c st

/-- A failed entry of the buffer -/
def FailedEntry (c : K) (e : Nat) (s : Writer K) : Prop :=
  s.entries.lookup c = some e ∧ ∃ o, s.objects[e]? = some o ∧ o.future = .exception

theorem failedEntry_of_same {c : K} {e : Nat} {s s' : Writer K} (h : FailedEntry c e s)
    (hsame : s'.entries = s.entries ∧ s'.objects = s.objects) : FailedEntry c e s' := by
  obtain ⟨hk, o, ho, hexception⟩ := h
  exact ⟨by rw [hsame.1, hk], o, by rw [hsame.2, ho], hexception⟩

theorem failedEntry_of_update {c : K} {e : Nat} {s s' : Writer K} (h : FailedEntry c e s)
    (φ : Nat → QueueEntry K → QueueEntry K) (hentries : s'.entries.lookup c = some e)
    (hobjects : ∀ e : Nat, s'.objects[e]? = (s.objects[e]?).map (φ e))
    (hφ : ∀ o, o.future = .exception → (φ e o).future = .exception) : FailedEntry c e s' := by
  obtain ⟨-, o, ho, hexception⟩ := h
  exact ⟨hentries, φ e o, by rw [hobjects, ho, Option.map_some], hφ o hexception⟩

omit [DecidableEq K] in
theorem settle_exception (o : QueueEntry K) (outcome : Outcome) (h : o.future = .exception) :
    (settle o outcome).future = .exception := by
  unfold settle
  simp [h, Future.done]

/-- The entry of a failed buffer stays, with its exception. -/
theorem failedEntry_step {c : K} {s : Writer K} (hsound : Sound s) {e : Nat}
    (h : FailedEntry c e s) {st : Step K} (hst : Repeats c s st) :
    FailedEntry c e (step s st).1 := by
  have hadmits : ∀ {s' : Writer K} {g : Nat} {w w' : Worker} {es : List Nat},
      Admits s s' g w w' es → FailedEntry c e s' := by
    intro s' g w w' es ha
    refine failedEntry_of_update h _ (by rw [ha.entries, h.1]) ha.objects ?_
    intro o hexception
    split <;> exact hexception
  cases st with
  | register key metadata =>
    show FailedEntry c e (s.register key metadata)
    rcases register_cases s key metadata with heq | ⟨hnone, heq⟩
    · rw [heq]
      exact h
    · rw [heq]
      obtain ⟨hk, o, ho, hexception⟩ := h
      refine ⟨?_, o, object_append_old ho, hexception⟩
      show (s.entries.set key s.objects.length).lookup c = some e
      rw [Dict.lookup_set, if_neg, hk]
      intro hkey
      rw [← hkey, hk] at hnone
      cases hnone
  | ensureWorker =>
    refine failedEntry_of_same h ?_
    show s.ensureWorker.entries = _ ∧ s.ensureWorker.objects = _
    rcases ensureWorker_cases s with ⟨heq, -⟩ | ⟨-, heq⟩ <;> rw [heq] <;> exact ⟨rfl, rfl⟩
  | start g => exact failedEntry_of_same h (start_step hsound g).same
  | scan g =>
    rcases scan_step hsound g with heq | ⟨w, -, -, ha⟩
    · show FailedEntry c e (s.scan g)
      rw [heq]
      exact h
    · exact hadmits ha
  | enqueue e' => exact failedEntry_of_same h (enqueue_step hsound e').same
  | callSoon g k => exact failedEntry_of_same h (callSoon_step hsound g k).same
  | callback g =>
    rcases callback_step hsound g with hstep | ⟨w, w', es, -, ha⟩
    · exact failedEntry_of_same h hstep.same
    · exact hadmits ha
  | take g => exact failedEntry_of_same h (take_step hsound g).same
  | promised g => exact failedEntry_of_same h (promised_step hsound g).same
  | finish g e' outcome =>
    show FailedEntry c e (s.finish g e' outcome)
    rcases finish_cases s g e' outcome with heq | ⟨w, o, -, ho, -, heq⟩
    · rw [heq]
      exact h
    · rw [heq]
      refine failedEntry_of_update h _ ?_ (fun i => getElem?_updateObject s e' _ i) ?_
      · show (entriesAfter s e' o outcome).lookup c = some e
        by_cases he : e = e'
        · -- only an exception is allowed, and it keeps the entry of a buffer
          cases outcome with
          | returned ok => exact absurd (he ▸ h.1) hst
          | raised =>
            obtain ⟨o', ho', hexception⟩ := h.2
            have hbuffer : o.metadata = false := by
              rw [he, ho, Option.some.injEq] at ho'
              rcases hsound.heldOpen c e o h.1 (he ▸ ho) with hpending | ⟨-, hbuffer⟩
              · rw [ho', hexception] at hpending
                cases hpending
              · exact hbuffer
            unfold entriesAfter
            rw [if_neg, h.1]
            rintro ⟨hno | hmeta, -⟩
            · exact hno rfl
            · rw [hbuffer] at hmeta
              cases hmeta
        · exact entriesAfter_other he h.1
      · intro o' hexception
        split
        · exact settle_exception o' outcome hexception
        · exact hexception
  | close g =>
    show FailedEntry c e (s.close g)
    rcases close_cases s g with heq | ⟨w, -, -, -, heq⟩
    · rw [heq]
      exact h
    · rw [heq]
      exact failedEntry_of_update h (fun _ o => { o with queued := false }) h.1
        (fun _ => List.getElem?_map) fun _ hexception => hexception
  | reset =>
    exact failedEntry_of_update h (fun _ o => { o with queued := false }) h.1
      (fun _ => List.getElem?_map) fun _ hexception => hexception
  | clear => exact absurd hst id
  | flushed key ok =>
    show FailedEntry c e (s.flushed key ok)
    rcases flushed_cases s key ok with heq | ⟨e', -, hok, -, heq⟩
    · rw [heq]
      exact h
    · rw [heq]
      refine failedEntry_of_update h _ ?_ (fun i => getElem?_updateObject s e' _ i) ?_
      · show (s.entries.erase key).lookup c = some e
        rw [Dict.lookup_erase, if_neg, h.1]
        intro hkey
        exact hst ⟨hkey.symm, hok⟩
      · intro o hexception
        split
        · simp [hexception, Future.done]
        · exact hexception

/-- Until a purge, a write by `flush` or the success of another attempt, every
step leaves a failed buffer failed. -/
theorem failed_step {c : K} {s : Writer K} (hsound : Sound s) (h : Failed c s) {st : Step K}
    (hst : Repeats c s st) : Failed c (step s st).1 := by
  have hdead : Dead c s := h.dead hsound
  obtain ⟨⟨e, o, hk, ho, hexception⟩, -⟩ := h
  obtain ⟨hk', o', ho', hexception'⟩ := failedEntry_step hsound ⟨hk, o, ho, hexception⟩ hst
  refine ⟨⟨e, o', hk', ho', hexception'⟩, ?_⟩
  intro g w i oi' hw hpromising hoi' hkey
  rcases promising_step st hw hpromising with ⟨v, hv, hpromising'⟩ | ⟨oi, hoi, hpending⟩
  · rcases object_step hsound st hoi' with ⟨oi, hoi, hsame, -⟩ | ⟨hnew, -⟩
    · exact hdead.unpromised g v i oi hv hpromising' hoi (by rw [← hsame, hkey])
    · have hlt := hsound.known g v i hv (mem_hand.mpr (Or.inr (Or.inl hpromising')))
      omega
  · rcases object_step hsound st hoi' with ⟨oi₀, hoi₀, hsame, -⟩ | ⟨hnew, -⟩
    · rw [hoi₀, Option.some.injEq] at hoi
      rw [← hoi] at hpending
      exact hdead.done i oi₀ hoi₀ (by rw [← hsame, hkey]) hpending
    · have hlt := (List.getElem?_eq_some_iff.mp hoi).1
      omega

/-- A failed buffer stays failed along every run of such steps, and no attempt
is made. -/
theorem failed_stays {c : K} {s : Writer K} (hsound : Sound s) (h : Failed c s)
    {steps : List (Step K)} (hsteps : Run.StepsMeet step (fun _ => Repeats c) s steps) :
    Failed c (Run.exec step s steps) ∧ ¬ Attempting c (Run.exec step s steps) := by
  have hrun := Run.exec_traced_invariant step (fun _ => Repeats c)
    (fun _ s => Sound s ∧ Failed c s) ⟨hsound, h⟩ ?_ steps hsteps
  · exact ⟨hrun.2, (hrun.2.dead hrun.1).not_attempting⟩
  · intro _ s st ⟨hsound, hfailed⟩ hst
    exact ⟨step_sound hsound st, failed_step hsound hfailed hst⟩

end SeamlessCore.BufferWriter
