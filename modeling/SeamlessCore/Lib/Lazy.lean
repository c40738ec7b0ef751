/-
  Lazy — programs that consult a table of facts and read one source lazily.

  A program asks what is known of a key, records facts, and fetches its
  source.  The eager run has the source at hand.  The lazy run gets it from a
  callback, keeps it, and counts the calls; without a source it stops where
  the first call would be.

  Main results:
    * `run_eq_exec` — a lazy run gives what the eager run gives;
    * `reads_run` — it calls for the source once if the program fetches, else
      not at all;
    * `run_dry` — the run without a source stops exactly when the program
      fetches, and otherwise gives the result;
    * `returns_bind` — what a sequence may return, from its parts;
    * `unread_bind` — a sequence under two tables, from its parts.
-/
import Mathlib

namespace Lazy

/-- What is known of each key. -/
abbrev Table (C H : Type) := C → Option H

inductive Prog (C H S : Type) (α : Type) : Type where
  | ret (a : α)
  | fail
  | ask (c : C) (next : Option H → Prog C H S α)
  | put (c : C) (h : H) (next : Prog C H S α)
  | fetch (next : S → Prog C H S α)

variable {C H S α β : Type}

namespace Prog

/-! ## §1. Composition. -/

def bind : Prog C H S α → (α → Prog C H S β) → Prog C H S β
  | ret a, f => f a
  | fail, _ => fail
  | ask c next, f => ask c fun h => (next h).bind f
  | put c h next, f => put c h (next.bind f)
  | fetch next, f => fetch fun b => (next b).bind f

instance : Monad (Prog C H S) where
  pure := ret
  bind := bind

/-- Run the program and go on with `none` where it fails. -/
def attempt : Prog C H S α → Prog C H S (Option α)
  | ret a => ret (some a)
  | fail => ret none
  | ask c next => ask c fun h => (next h).attempt
  | put c h next => put c h next.attempt
  | fetch next => fetch fun b => (next b).attempt

/-- The program with its source given. -/
def supply (b : S) : Prog C H S α → Prog C H S α
  | ret a => ret a
  | fail => fail
  | ask c next => ask c fun h => (next h).supply b
  | put c h next => put c h (next.supply b)
  | fetch next => (next b).supply b

/-- The result, or a failure for `none` -/
def ofOption : Option α → Prog C H S α
  | some a => ret a
  | none => fail

variable [DecidableEq C]

/-! ## §2. The eager run. -/

/-- The result with the source at hand, and the table afterwards. -/
def exec (b : S) : Prog C H S α → Table C H → Option α × Table C H
  | ret a, facts => (some a, facts)
  | fail, facts => (none, facts)
  | ask c next, facts => exec b (next (facts c)) facts
  | put c h next, facts => exec b next (Function.update facts c (some h))
  | fetch next, facts => exec b (next b) facts

@[simp] theorem exec_pure (b : S) (a : α) (facts : Table C H) :
    exec b (pure a : Prog C H S α) facts = (some a, facts) := rfl

@[simp] theorem exec_ret (b : S) (a : α) (facts : Table C H) :
    exec b (ret a : Prog C H S α) facts = (some a, facts) := rfl

@[simp] theorem exec_fail (b : S) (facts : Table C H) :
    exec b (fail : Prog C H S α) facts = (none, facts) := rfl

@[simp] theorem exec_ask (b : S) (c : C) (next : Option H → Prog C H S α) (facts : Table C H) :
    exec b (ask c next) facts = exec b (next (facts c)) facts := rfl

@[simp] theorem exec_put (b : S) (c : C) (h : H) (next : Prog C H S α) (facts : Table C H) :
    exec b (put c h next) facts = exec b next (Function.update facts c (some h)) := rfl

@[simp] theorem exec_fetch (b : S) (next : S → Prog C H S α) (facts : Table C H) :
    exec b (fetch next) facts = exec b (next b) facts := rfl

theorem exec_ofOption (b : S) (a : Option α) (facts : Table C H) :
    exec b (ofOption a : Prog C H S α) facts = (a, facts) := by
  cases a <;> rfl

/-- Sequencing: a failure ends the run, a result goes on from its table. -/
theorem exec_bind (b : S) (m : Prog C H S α) (f : α → Prog C H S β) (facts : Table C H) :
    exec b (m >>= f) facts =
      match exec b m facts with
      | (some a, facts') => exec b (f a) facts'
      | (none, facts') => (none, facts') := by
  show exec b (m.bind f) facts = _
  induction m generalizing facts with
  | ret a => rfl
  | fail => rfl
  | ask c next ih => exact ih (facts c) facts
  | put c h next ih => exact ih _
  | fetch next ih => exact ih b facts

theorem exec_attempt (b : S) (m : Prog C H S α) (facts : Table C H) :
    exec b m.attempt facts = (some (exec b m facts).1, (exec b m facts).2) := by
  induction m generalizing facts with
  | ret a => rfl
  | fail => rfl
  | ask c next ih => exact ih (facts c) facts
  | put c h next ih => exact ih _
  | fetch next ih => exact ih b facts

theorem exec_supply (b b' : S) (m : Prog C H S α) (facts : Table C H) :
    exec b (m.supply b') facts = exec b' m facts := by
  induction m generalizing facts with
  | ret a => rfl
  | fail => rfl
  | ask c next ih => exact ih (facts c) facts
  | put c h next ih => exact ih _
  | fetch next ih => exact ih b' facts

/-! ## §3. Programs that fetch. -/

/-- From these facts the program gets to a fetch. -/
def needs : Prog C H S α → Table C H → Bool
  | ret _, _ => false
  | fail, _ => false
  | ask c next, facts => needs (next (facts c)) facts
  | put c h next, facts => needs next (Function.update facts c (some h))
  | fetch _, _ => true

@[simp] theorem needs_pure (a : α) (facts : Table C H) :
    needs (pure a : Prog C H S α) facts = false := rfl

@[simp] theorem needs_fail (facts : Table C H) : needs (fail : Prog C H S α) facts = false := rfl

@[simp] theorem needs_ask (c : C) (next : Option H → Prog C H S α) (facts : Table C H) :
    needs (ask c next) facts = needs (next (facts c)) facts := rfl

@[simp] theorem needs_put (c : C) (h : H) (next : Prog C H S α) (facts : Table C H) :
    needs (put c h next) facts = needs next (Function.update facts c (some h)) := rfl

@[simp] theorem needs_fetch (next : S → Prog C H S α) (facts : Table C H) :
    needs (fetch next) facts = true := rfl

@[simp] theorem needs_ofOption (a : Option α) (facts : Table C H) :
    needs (ofOption a : Prog C H S α) facts = false := by
  cases a <;> rfl

/-- A sequence fetches in its first part, or in its second after the first. -/
theorem needs_bind (b : S) (m : Prog C H S α) (f : α → Prog C H S β) (facts : Table C H) :
    needs (m >>= f) facts =
      (needs m facts ||
        match exec b m facts with
        | (some a, facts') => needs (f a) facts'
        | (none, _) => false) := by
  show needs (m.bind f) facts = _
  induction m generalizing facts with
  | ret a => rfl
  | fail => rfl
  | ask c next ih => exact ih (facts c) facts
  | put c h next ih => exact ih _
  | fetch next => rfl

@[simp] theorem needs_supply (b : S) (m : Prog C H S α) (facts : Table C H) :
    needs (m.supply b) facts = false := by
  induction m generalizing facts with
  | ret a => rfl
  | fail => rfl
  | ask c next ih => exact ih (facts c) facts
  | put c h next ih => exact ih _
  | fetch next ih => exact ih b facts

end Prog

/-! ## §4. What a program may return. -/

namespace Prog

/-- Every result satisfies `P`, whatever the facts and the source are. -/
def Returns (P : α → Prop) : Prog C H S α → Prop
  | ret a => P a
  | fail => True
  | ask _ next => ∀ h, (next h).Returns P
  | put _ _ next => next.Returns P
  | fetch next => ∀ b, (next b).Returns P

theorem returns_bind {P : β → Prop} {Q : α → Prop} {m : Prog C H S α} {f : α → Prog C H S β}
    (hm : m.Returns Q) (hf : ∀ a, Q a → (f a).Returns P) : (m >>= f).Returns P := by
  show (m.bind f).Returns P
  induction m with
  | ret a => exact hf a hm
  | fail => trivial
  | ask c next ih =>
    intro h
    exact ih h (hm h)
  | put c h next ih => exact ih hm
  | fetch next ih =>
    intro b
    exact ih b (hm b)

theorem returns_trivial (m : Prog C H S α) : m.Returns fun _ => True := by
  induction m with
  | ret a => trivial
  | fail => trivial
  | ask c next ih => exact ih
  | put c h next ih => exact ih
  | fetch next ih => exact ih

theorem returns_imp {P Q : α → Prop} (h : ∀ a, P a → Q a) {m : Prog C H S α}
    (hm : m.Returns P) : m.Returns Q := by
  induction m with
  | ret a => exact h a hm
  | fail => trivial
  | ask c next ih =>
    intro known
    exact ih known (hm known)
  | put c known next ih => exact ih hm
  | fetch next ih =>
    intro b
    exact ih b (hm b)

theorem returns_supply {P : α → Prop} {m : Prog C H S α} (hm : m.Returns P) (b : S) :
    (m.supply b).Returns P := by
  induction m with
  | ret a => exact hm
  | fail => trivial
  | ask c next ih =>
    intro known
    exact ih known (hm known)
  | put c known next ih => exact ih hm
  | fetch next ih => exact ih b (hm b)

/-- Only the last part of a sequence decides. -/
theorem returns_seq {P : β → Prop} {m : Prog C H S α} {f : α → Prog C H S β}
    (hf : ∀ a, (f a).Returns P) : (m >>= f).Returns P :=
  returns_bind (returns_trivial m) fun a _ => hf a

/-- There is no result without a fetch. -/
def Fetches : Prog C H S α → Prop
  | ret _ => False
  | fail => True
  | ask _ next => ∀ h, (next h).Fetches
  | put _ _ next => next.Fetches
  | fetch _ => True

theorem fetches_bind_left {m : Prog C H S α} (hm : m.Fetches) (f : α → Prog C H S β) :
    (m >>= f).Fetches := by
  show (m.bind f).Fetches
  induction m with
  | ret a => exact hm.elim
  | fail => trivial
  | ask c next ih =>
    intro h
    exact ih h (hm h)
  | put c h next ih => exact ih hm
  | fetch next => trivial

theorem fetches_bind_right (m : Prog C H S α) {f : α → Prog C H S β} (hf : ∀ a, (f a).Fetches) :
    (m >>= f).Fetches := by
  show (m.bind f).Fetches
  induction m with
  | ret a => exact hf a
  | fail => trivial
  | ask c next ih => exact ih
  | put c h next ih => exact ih
  | fetch next => trivial

variable [DecidableEq C]

/-- The result of a run is one that the program may return. -/
theorem exec_returns {P : α → Prop} {m : Prog C H S α} (hm : m.Returns P) {b : S}
    {facts : Table C H} {a : α} (h : (exec b m facts).1 = some a) : P a := by
  induction m generalizing facts with
  | ret a' =>
    cases h
    exact hm
  | fail => cases h
  | ask c next ih => exact ih (facts c) (hm (facts c)) h
  | put c w next ih => exact ih hm h
  | fetch next ih => exact ih b (hm b) h

/-! ## §5. One program under two tables. -/

/-- Without a fetch, the program does the same from the second table, and the tables
that it leaves are related again. -/
def Unread (R : Table C H → Table C H → Prop) (b : S) (m : Prog C H S α) : Prop :=
  ∀ facts facts', R facts facts' → m.needs facts = false →
    m.needs facts' = false ∧ (m.exec b facts).1 = (m.exec b facts').1 ∧
      R (m.exec b facts).2 (m.exec b facts').2

variable {R : Table C H → Table C H → Prop} {b : S}

theorem unread_ret (a : α) : Unread R b (pure a : Prog C H S α) :=
  fun _ _ hR _ => ⟨rfl, rfl, hR⟩

theorem unread_fail : Unread R b (fail : Prog C H S α) := fun _ _ hR _ => ⟨rfl, rfl, hR⟩

theorem unread_fetch (next : S → Prog C H S α) : Unread R b (fetch next) := by
  intro _ _ _ hneeds
  cases hneeds

theorem unread_ofOption (a : Option α) : Unread R b (ofOption a : Prog C H S α) := by
  cases a with
  | none => exact unread_fail
  | some a => exact unread_ret a

/-- A sequence, from its parts; the second may rely on what the first returns. -/
theorem unread_bind {P : α → Prop} {m : Prog C H S α} {f : α → Prog C H S β}
    (hm : Unread R b m) (hreturns : m.Returns P) (hf : ∀ a, P a → Unread R b (f a)) :
    Unread R b (m >>= f) := by
  intro facts facts' hR hneeds
  rw [needs_bind b, Bool.or_eq_false_iff] at hneeds
  obtain ⟨hfirst, hsame, hR'⟩ := hm facts facts' hR hneeds.1
  have hrest := hneeds.2
  rw [needs_bind b, exec_bind, exec_bind, hfirst, Bool.false_or]
  -- the first parts agree, so the second starts with one value
  rcases hexec : exec b m facts with ⟨a, known⟩
  rcases hexec' : exec b m facts' with ⟨a', known'⟩
  rw [hexec, hexec'] at hsame hR'
  obtain rfl : a = a' := hsame
  cases a with
  | none => exact ⟨rfl, rfl, hR'⟩
  | some a =>
    rw [hexec] at hrest
    exact hf a (exec_returns hreturns (congrArg Prod.fst hexec)) known known' hR' hrest

/-- A sequence whose second part relies on nothing -/
theorem unread_seq {m : Prog C H S α} {f : α → Prog C H S β} (hm : Unread R b m)
    (hf : ∀ a, Unread R b (f a)) : Unread R b (m >>= f) :=
  unread_bind hm (returns_trivial m) fun a _ => hf a

end Prog

/-! ## §6. The lazy run. -/

/-- How a run ends; `stopped` at a fetch without a source. -/
inductive Outcome (α : Type) where
  | done (a : α)
  | failed
  | stopped
  deriving DecidableEq

def Outcome.ofOption : Option α → Outcome α
  | some a => done a
  | none => failed

structure Session (C H S : Type) where
  facts : Table C H
  /-- The source, once it was read. -/
  loaded : Option S
  /-- The calls for the source. -/
  reads : Nat

/-- A session before any call. -/
def Session.start (facts : Table C H) : Session C H S := ⟨facts, none, 0⟩

variable [DecidableEq C]

open Prog in
/-- The run that gets its source from a callback. -/
def run (source : Option S) : Prog C H S α → Session C H S → Outcome α × Session C H S
  | ret a, s => (.done a, s)
  | fail, s => (.failed, s)
  | ask c next, s => run source (next (s.facts c)) s
  | put c h next, s => run source next { s with facts := Function.update s.facts c (some h) }
  | fetch next, s =>
    match s.loaded with
    | some b => run source (next b) s
    | none =>
      match source with
      | none => (.stopped, { s with reads := s.reads + 1 })
      | some b => run source (next b) { s with loaded := some b, reads := s.reads + 1 }

/-- Once the source was read, a run never calls again. -/
theorem run_loaded (source : Option S) (b : S) (m : Prog C H S α) (facts : Table C H) (n : Nat) :
    run source m ⟨facts, some b, n⟩ =
      (.ofOption (m.exec b facts).1, ⟨(m.exec b facts).2, some b, n⟩) := by
  induction m generalizing facts with
  | ret a => rfl
  | fail => rfl
  | ask c next ih => exact ih (facts c) facts
  | put c h next ih => exact ih _
  | fetch next ih => exact ih b facts

/-- A lazy run ends as the eager run does, with at most one more call. -/
theorem run_source (b : S) (m : Prog C H S α) (facts : Table C H) (n : Nat) :
    run (some b) m ⟨facts, none, n⟩ =
      (.ofOption (m.exec b facts).1,
        ⟨(m.exec b facts).2, if m.needs facts then some b else none,
          n + (m.needs facts).toNat⟩) := by
  induction m generalizing facts with
  | ret a => rfl
  | fail => rfl
  | ask c next ih => exact ih (facts c) facts
  | put c h next ih => exact ih _
  | fetch next => exact run_loaded (some b) b (next b) facts (n + 1)

/-- A lazy run gives what the eager run gives. -/
theorem run_eq_exec (b : S) (m : Prog C H S α) (facts : Table C H) :
    (run (some b) m (.start facts)).1 = .ofOption (m.exec b facts).1 ∧
      (run (some b) m (.start facts)).2.facts = (m.exec b facts).2 := by
  unfold Session.start
  rw [run_source]
  exact ⟨rfl, rfl⟩

/-- A run ends without a result exactly if the eager run does. -/
theorem run_not_done_iff (b : S) (m : Prog C H S α) (facts : Table C H) :
    (∀ a, (run (some b) m (.start facts)).1 ≠ .done a) ↔ (m.exec b facts).1 = none := by
  rw [(run_eq_exec b m facts).1]
  cases (m.exec b facts).1 with
  | none => simp [Outcome.ofOption]
  | some a => simp [Outcome.ofOption]

/-- The callback is called once if the program fetches, and else never. -/
theorem reads_run (b : S) (m : Prog C H S α) (facts : Table C H) :
    (run (some b) m (.start facts)).2.reads = (m.needs facts).toNat := by
  unfold Session.start
  rw [run_source]
  exact Nat.zero_add _

/-- Without a source, a run stops exactly when the program fetches. -/
theorem run_dry (m : Prog C H S α) (facts : Table C H) (b : S) (n : Nat) :
    (run none m ⟨facts, none, n⟩).1 =
      if m.needs facts then .stopped else .ofOption (m.exec b facts).1 := by
  induction m generalizing facts with
  | ret a => rfl
  | fail => rfl
  | ask c next ih => exact ih (facts c) facts
  | put c h next ih => exact ih _
  | fetch next => rfl

/-- The result of a run is one that the program may return. -/
theorem run_returns {P : α → Prop} {source : Option S} {m : Prog C H S α} (hm : m.Returns P)
    {s : Session C H S} {a : α} (h : (run source m s).1 = .done a) : P a := by
  induction m generalizing s with
  | ret a' =>
    cases h
    exact hm
  | fail => cases h
  | ask c next ih => exact ih (s.facts c) (hm (s.facts c)) h
  | put c w next ih => exact ih hm h
  | fetch next ih =>
    unfold run at h
    -- the source may have been read before
    cases hloaded : s.loaded with
    | some b =>
      rw [hloaded] at h
      exact ih b (hm b) h
    | none =>
      rw [hloaded] at h
      cases source with
      | none => cases h
      | some b => exact ih b (hm b) h

/-- Without a source, a program that has to fetch has no result. -/
theorem run_fetches {m : Prog C H S α} (hm : m.Fetches) (facts : Table C H) (n : Nat) (a : α) :
    (run none m ⟨facts, none, n⟩).1 ≠ .done a := by
  induction m generalizing facts with
  | ret a => exact hm.elim
  | fail =>
    intro h
    cases h
  | ask c next ih => exact ih (facts c) (hm (facts c)) facts
  | put c h next ih => exact ih hm _
  | fetch next =>
    intro h
    cases h

/-- A result that did not need the source is that of a run without it. -/
theorem run_done {source : Option S} {m : Prog C H S α} {facts : Table C H} {a : α}
    (h : (run source m (.start facts)).1 = .done a) :
    (run none m (.start facts)).1 = .done a ∨ source.isSome = true := by
  cases source with
  | none => exact .inl h
  | some b => exact .inr rfl

end Lazy
