/-
  SeamlessCore.Cache.Owners — scratch status and non-scratch owners.

  The cache keeps one set of scratch checksums, and every claim and every
  producer overwrites it with its own last word.  A ledger next to the cache
  counts the non-scratch claims that are held, whoever releases them; scratch
  status respects these owners exactly as long as nobody adds a checksum with
  an owner to the set.

  Main results:
    * `step_scratchRefs` — what every operation does to the set;
    * `step_respects` — one action, from the ledger before it;
    * `scratch_respects_owners` — the property over every run;
    * `marked_while_owned` — an evaluation that marks an owned result.

  Source: `seamless/caching/buffer_cache.py`, and `_tempref_expression_result`
  of `seamless/checksum/expression.py`.
-/
import SeamlessCore.Cache.Publication

namespace SeamlessCore.BufferCache

variable {Checksum Buffer F : Type} [DecidableEq Checksum]

/-! ## §1. Two more operations. -/

/-- `refresh_tempref(checksum)` -/
def refreshTempref (s : BufferCache Checksum Buffer F) (cs : Checksum) (now : F) :
    BufferCache Checksum Buffer F :=
  s.updateEntry cs fun e => { e with tempref := e.tempref.map fun t => { t with lastRefreshed := now } }

/-- One turn of the loop of `force_clear_reference_accounting` -/
def clearOne (f : FloatOps F) (now : Checksum → F) (s : BufferCache Checksum Buffer F)
    (cs : Checksum) : BufferCache Checksum Buffer F :=
  demote f (s.updateEntry cs fun e => { e with manualRefs := 0, hasRefholderBridge := false }) cs
    (now cs)

/-- `force_clear_reference_accounting()` -/
def forceClearReferenceAccounting (f : FloatOps F) (now : Checksum → F)
    (s : BufferCache Checksum Buffer F) : BufferCache Checksum Buffer F :=
  s.strongCache.keyList.foldl (clearOne f now) { s with refholderCounts := ∅ }

/-! ## §2. The scratch set. -/

theorem noteSize_scratch (s : BufferCache Checksum Buffer F) (cs : Checksum) (n : Option Nat) :
    (s.noteSize cs n).scratchRefs = s.scratchRefs := by
  cases n <;> rfl

theorem updateEntry_scratch (s : BufferCache Checksum Buffer F) (cs : Checksum)
    (update : StrongEntry Buffer F → StrongEntry Buffer F) :
    (s.updateEntry cs update).scratchRefs = s.scratchRefs := by
  unfold updateEntry
  split <;> rfl

theorem addHolder_scratch (s : BufferCache Checksum Buffer F) (cs : Checksum) :
    (s.addHolder cs).scratchRefs = s.scratchRefs := by
  unfold addHolder
  dsimp only
  split
  · exact updateEntry_scratch s cs _
  · rfl

theorem demote_scratch (f : FloatOps F) (s : BufferCache Checksum Buffer F) (cs : Checksum)
    (now : F) : (demote f s cs now).scratchRefs = s.scratchRefs := by
  unfold demote
  split
  · rfl
  · split <;> rfl

omit [DecidableEq Checksum] in
/-- A loop of turns that leave the set leaves it. -/
theorem foldl_scratch {A : Type} (turn : BufferCache Checksum Buffer F → A →
      BufferCache Checksum Buffer F) (h : ∀ s a, (turn s a).scratchRefs = s.scratchRefs)
    (l : List A) : ∀ s, (l.foldl turn s).scratchRefs = s.scratchRefs := by
  induction l with
  | nil => exact fun s => rfl
  | cons a l ih =>
    intro s
    rw [List.foldl_cons, ih, h]

theorem forceClear_scratch (f : FloatOps F) (now : Checksum → F)
    (s : BufferCache Checksum Buffer F) :
    (forceClearReferenceAccounting f now s).scratchRefs = s.scratchRefs := by
  unfold forceClearReferenceAccounting
  rw [foldl_scratch]
  intro s cs
  unfold clearOne
  rw [demote_scratch, updateEntry_scratch]

variable (P : CacheParams Checksum Buffer F)

theorem register_scratch (s : BufferCache Checksum Buffer F) (cs : Checksum) (b : Buffer)
    (size : Option Nat) : (register P s cs b size).scratchRefs = s.scratchRefs := by
  unfold register registerLocked
  dsimp only
  split <;> exact noteSize_scratch s cs _

theorem getChecksum_scratch (s : BufferCache Checksum Buffer F)
    (arg : Option (BufferArg Buffer)) : (getChecksum P s arg).scratchRefs = s.scratchRefs := by
  unfold getChecksum
  split
  · exact register_scratch P s _ _ _
  · rfl

theorem ensureEntry_scratch (s : BufferCache Checksum Buffer F) (cs : Checksum)
    (arg : Option (BufferArg Buffer)) (scratch : Bool) :
    (ensureEntry P s cs arg scratch).1.scratchRefs = s.scratchRefs := by
  unfold ensureEntry
  dsimp only
  split
  · exact getChecksum_scratch P s arg
  · split
    · exact (noteSize_scratch _ _ _).trans (getChecksum_scratch P s arg)
    · exact getChecksum_scratch P s arg

theorem withEntry_scratch (s : BufferCache Checksum Buffer F) (cs : Checksum)
    (arg : Option (BufferArg Buffer)) (scratch : Bool)
    (update : BufferCache Checksum Buffer F → BufferCache Checksum Buffer F)
    (h : ∀ t, (update t).scratchRefs = t.scratchRefs) :
    (withEntry P s cs arg scratch update).1.scratchRefs = s.scratchRefs := by
  have hensure := ensureEntry_scratch P s cs arg scratch
  unfold withEntry
  cases he : ensureEntry P s cs arg scratch with
  | mk t writeBuffer =>
    rw [he] at hensure
    cases writeBuffer with
    | none => exact hensure
    | some writeBuffer => exact (h t).trans hensure

omit P in
theorem purgeOne_scratch (s : BufferCache Checksum Buffer F) (cs : Checksum) :
    (purgeOne s cs).1.scratchRefs = s.scratchRefs := by
  unfold purgeOne
  split
  · split <;> rfl
  · split
    · rfl
    · split <;> rfl

omit P in
theorem purgeScratch_scratch (s : BufferCache Checksum Buffer F) (cs : Option Checksum) :
    (purgeScratch s cs).1.scratchRefs = s.scratchRefs := by
  have hloop : ∀ (l : List Checksum) (s : BufferCache Checksum Buffer F) (n : Nat),
      (l.foldl (fun acc cs => ((purgeOne acc.1 cs).1, acc.2 + (purgeOne acc.1 cs).2))
        (s, n)).1.scratchRefs = s.scratchRefs := by
    intro l
    induction l with
    | nil => exact fun s n => rfl
    | cons cs l ih =>
      intro s n
      rw [List.foldl_cons, ih]
      exact purgeOne_scratch s cs
  unfold purgeScratch
  exact hloop _ s 0

theorem expireOne_scratch (r : EvictionReadings Checksum F) (s : BufferCache Checksum Buffer F)
    (cs : Checksum) : (expireOne P r s cs).scratchRefs = s.scratchRefs := by
  unfold expireOne
  split
  · rfl
  · split
    · rfl
    · dsimp only
      split
      · exact demote_scratch _ _ _ _
      · rfl

theorem evictLoop_scratch (r : EvictionReadings Checksum F) (cands : List (F × Checksum)) :
    ∀ (current : Int) (s : BufferCache Checksum Buffer F),
      (evictLoop P r current cands s).2.scratchRefs = s.scratchRefs := by
  induction cands with
  | nil => exact fun current s => rfl
  | cons cand cands ih =>
    intro current s
    obtain ⟨score, cs⟩ := cand
    unfold evictLoop
    split
    · rfl
    · split
      · exact ih current s
      · split
        · exact ih current s
        · dsimp only
          rw [ih]
          exact demote_scratch _ _ _ _

theorem runEvictionOnce_scratch (r : EvictionReadings Checksum F)
    (s : BufferCache Checksum Buffer F) :
    (runEvictionOnce P r s).1.scratchRefs = s.scratchRefs := by
  have hexpire : (expireTemprefs P r s).scratchRefs = s.scratchRefs :=
    foldl_scratch (expireOne P r) (expireOne_scratch P r) _ s
  unfold runEvictionOnce
  dsimp only
  split
  · exact hexpire
  · exact (evictLoop_scratch P r _ _ _).trans hexpire

omit P [DecidableEq Checksum] in
/-- The last word of an operation on the scratch status of a checksum -/
def lastWord : Op Checksum Buffer F → Option (Checksum × Bool)
  | .incref cs _ scratch => some (cs, scratch)
  | .increfRefholder cs _ (some scratch) => some (cs, scratch)
  | .transferWrite cs _ => some (cs, false)
  | .markScratch cs => some (cs, true)
  | _ => none

omit P in
/-- The set after such a word -/
def overwrite (s : BufferCache Checksum Buffer F) :
    Option (Checksum × Bool) → BufferCache Checksum Buffer F
  | some (cs, true) => s.addScratch cs
  | some (cs, false) => s.discardScratch cs
  | none => s

/-- An operation does nothing to the set but to have its word, also where it
ends in an `AssertionError`. -/
theorem step_scratchRefs (s : BufferCache Checksum Buffer F) (op : Op Checksum Buffer F) :
    (step P s op).1.scratchRefs = (s.overwrite (lastWord op)).scratchRefs := by
  cases op with
  | register cs b size => exact register_scratch P s cs b size
  | get cs =>
    show (get s cs).1.scratchRefs = s.scratchRefs
    unfold get
    split
    · rfl
    · split
      · rfl
      · split <;> rfl
  | incref cs arg scratch =>
    -- the word is spoken before the entry is ensured, which may raise
    have hentry := fun t : BufferCache Checksum Buffer F => withEntry_scratch P t cs arg scratch
      (fun s => s.updateEntry cs fun e => { e with manualRefs := e.manualRefs + 1 })
      fun t => updateEntry_scratch t cs _
    cases scratch with
    | true => exact hentry (s.addScratch cs)
    | false => exact hentry (s.discardScratch cs)
  | decref cs now =>
    show (decref P s cs now).1.scratchRefs = s.scratchRefs
    unfold decref
    split
    · rfl
    · split
      · rfl
      · exact demote_scratch _ _ _ _
  | increfRefholder cs arg scratch =>
    have hentry := fun t : BufferCache Checksum Buffer F => withEntry_scratch P t cs arg
      (scratch ≠ some false) (fun s => s.addHolder cs) fun t => addHolder_scratch t cs
    cases scratch with
    | none => exact hentry s
    | some scratch =>
      cases scratch with
      | true => exact hentry (s.addScratch cs)
      | false => exact hentry (s.discardScratch cs)
  | decrefRefholder cs now =>
    show (decrefRefholder P s cs now).1.scratchRefs = s.scratchRefs
    unfold decrefRefholder
    dsimp only
    split
    · rfl
    · split
      · rw [demote_scratch, updateEntry_scratch]
        rfl
      · rfl
  | tempref cs arg interest fadeFactor fadeInterval now =>
    exact withEntry_scratch P s cs arg true _ fun t => updateEntry_scratch t cs _
  | transferWrite cs arg =>
    exact withEntry_scratch P (s.discardScratch cs) cs arg false id fun t => rfl
  | markScratch cs => rfl
  | purgeScratch cs => exact purgeScratch_scratch s cs
  | runEvictionOnce r => exact runEvictionOnce_scratch P r s
  | collect cs => rfl

omit P in
theorem isScratchRef_congr {s t : BufferCache Checksum Buffer F}
    (h : t.scratchRefs = s.scratchRefs) (cs : Checksum) :
    t.isScratchRef cs = s.isScratchRef cs := by
  unfold isScratchRef
  rw [h]

omit P in
theorem isScratchRef_overwrite (s : BufferCache Checksum Buffer F) (cs cs' : Checksum)
    (scratch : Bool) :
    (s.overwrite (some (cs', scratch))).isScratchRef cs =
      if cs = cs' then scratch else s.isScratchRef cs := by
  have hmem : ∀ t : BufferCache Checksum Buffer F,
      t.isScratchRef cs = (t.scratchRefs.lookup cs).isSome := by
    intro t
    unfold isScratchRef
    rw [Bool.eq_iff_iff, decide_eq_true_iff, AList.lookup_isSome]
  rw [hmem, hmem]
  cases scratch with
  | true =>
    show ((s.scratchRefs.set cs' ()).lookup cs).isSome = _
    rw [Dict.lookup_set]
    split <;> rfl
  | false =>
    show ((s.scratchRefs.erase cs').lookup cs).isSome = _
    rw [Dict.lookup_erase]
    split <;> rfl

/-! ## §3. Owners. -/

/-- `_tempref_expression_result(checksum, buffer, produced)`, which raises
where its tempref does -/
def temprefExpressionResult (s : BufferCache Checksum Buffer F) (cs : Checksum)
    (arg : Option (BufferArg Buffer)) (produced : Bool) (now : F) :
    BufferCache Checksum Buffer F × Outcome Buffer :=
  match tempref P s cs arg (P.float.ofInt 128) (P.float.ofInt 2) (P.float.ofInt 2) now with
  | (s, .assertionError) => (s, .assertionError)
  | (s, outcome) => (if produced then s.addScratch cs else s, outcome)

/-- What happens to a cache.  A release says whether the claim that it gives
back is a non-scratch one. -/
inductive Action (Checksum Buffer F : Type) where
  | operate (op : Op Checksum Buffer F) (owner : Bool)
  | refreshTempref (cs : Checksum) (now : F)
  | forceClear (now : Checksum → F)
  | recordResult (cs : Checksum) (arg : Option (BufferArg Buffer)) (produced : Bool) (now : F)

def act (s : BufferCache Checksum Buffer F) :
    Action Checksum Buffer F → BufferCache Checksum Buffer F × Outcome Buffer
  | .operate op _ => step P s op
  | .refreshTempref cs now => (s.refreshTempref cs now, .done)
  | .forceClear now => (forceClearReferenceAccounting P.float now s, .done)
  | .recordResult cs arg produced now => temprefExpressionResult P s cs arg produced now

/-- The cache, and the non-scratch claims that are held. -/
structure Ledger (Checksum Buffer F : Type) where
  cache : BufferCache Checksum Buffer F
  manual : Checksum → Nat
  holders : Checksum → Nat

namespace Ledger

omit P [DecidableEq Checksum] in
/-- The ledger of a new cache -/
def new : Ledger Checksum Buffer F := ⟨BufferCache.new, fun _ => 0, fun _ => 0⟩

/-- Claims are booked when they are made and when they are given back. -/
def book (l : Ledger Checksum Buffer F) :
    Action Checksum Buffer F → Outcome Buffer → Ledger Checksum Buffer F
  | .operate (.incref cs _ false) _, .done =>
    { l with manual := Function.update l.manual cs (l.manual cs + 1) }
  | .operate (.increfRefholder cs _ (some false)) _, .done =>
    { l with holders := Function.update l.holders cs (l.holders cs + 1) }
  | .operate (.decref cs _) true, .released true =>
    { l with manual := Function.update l.manual cs (l.manual cs - 1) }
  | .operate (.decrefRefholder cs _) true, .released true =>
    { l with holders := Function.update l.holders cs (l.holders cs - 1) }
  | .forceClear _, _ =>
    { l with
      manual := fun _ => 0
      holders := fun _ => 0 }
  | _, _ => l

/-- One action -/
def step (l : Ledger Checksum Buffer F) (a : Action Checksum Buffer F) :
    Ledger Checksum Buffer F × Outcome Buffer :=
  let (cache, outcome) := act P l.cache a
  ({ l.book a outcome with cache := cache }, outcome)

omit [DecidableEq Checksum] P in
/-- A non-scratch claim is held. -/
def Owned (l : Ledger Checksum Buffer F) (cs : Checksum) : Prop :=
  0 < l.manual cs ∨ 0 < l.holders cs

omit P in
/-- No checksum with an owner is tracked as scratch. -/
def Respects (l : Ledger Checksum Buffer F) : Prop :=
  ∀ cs, l.Owned cs → l.cache.isScratchRef cs = false

end Ledger

/-- The last word of an action; a result whose buffer belongs to another
checksum is not recorded. -/
def Action.word (s : BufferCache Checksum Buffer F) :
    Action Checksum Buffer F → Option (Checksum × Bool)
  | .operate op _ => lastWord op
  | .recordResult cs arg true _ =>
    if ∃ b, bufferOf s cs arg = some b ∧ P.checksum b ≠ cs then none else some (cs, true)
  | _ => none

theorem withEntry_outcome (s : BufferCache Checksum Buffer F) (cs : Checksum)
    (arg : Option (BufferArg Buffer)) (scratch : Bool)
    (update : BufferCache Checksum Buffer F → BufferCache Checksum Buffer F) :
    (withEntry P s cs arg scratch update).2 =
      if ∃ b, bufferOf s cs arg = some b ∧ P.checksum b ≠ cs then .assertionError else .done := by
  unfold withEntry ensureEntry
  dsimp only
  by_cases hbad : ∃ b, bufferOf s cs arg = some b ∧ P.checksum b ≠ cs
  · rw [if_pos hbad]
    unfold bufferOf at hbad
    rw [if_pos hbad]
  · rw [if_neg hbad]
    unfold bufferOf at hbad
    rw [if_neg hbad]
    split
    next heq =>
      split at heq <;> cases heq
    next => rfl

theorem tempref_scratch (s : BufferCache Checksum Buffer F) (cs : Checksum)
    (arg : Option (BufferArg Buffer)) (interest fadeFactor fadeInterval now : F) :
    (tempref P s cs arg interest fadeFactor fadeInterval now).1.scratchRefs = s.scratchRefs :=
  withEntry_scratch P s cs arg true _ fun t => updateEntry_scratch t cs _

theorem tempref_outcome (s : BufferCache Checksum Buffer F) (cs : Checksum)
    (arg : Option (BufferArg Buffer)) (interest fadeFactor fadeInterval now : F) :
    (tempref P s cs arg interest fadeFactor fadeInterval now).2 =
      if ∃ b, bufferOf s cs arg = some b ∧ P.checksum b ≠ cs then .assertionError else .done :=
  withEntry_outcome P s cs arg true _

theorem act_scratchRefs (s : BufferCache Checksum Buffer F) (a : Action Checksum Buffer F) :
    (act P s a).1.scratchRefs = (s.overwrite (a.word P s)).scratchRefs := by
  cases a with
  | operate op owner => exact step_scratchRefs P s op
  | refreshTempref cs now => exact updateEntry_scratch s cs _
  | forceClear now => exact forceClear_scratch P.float now s
  | recordResult cs arg produced now =>
    have hscratch := tempref_scratch P s cs arg (P.float.ofInt 128) (P.float.ofInt 2)
      (P.float.ofInt 2) now
    have houtcome := tempref_outcome P s cs arg (P.float.ofInt 128) (P.float.ofInt 2)
      (P.float.ofInt 2) now
    show (temprefExpressionResult P s cs arg produced now).1.scratchRefs = _
    unfold temprefExpressionResult
    cases hrun : tempref P s cs arg (P.float.ofInt 128) (P.float.ofInt 2) (P.float.ofInt 2) now with
    | mk t outcome =>
      rw [hrun] at hscratch houtcome
      dsimp only at hscratch houtcome
      -- a tempref that raises ends the recording before the mark
      by_cases hbad : ∃ b, bufferOf s cs arg = some b ∧ P.checksum b ≠ cs
      · rw [if_pos hbad] at houtcome
        subst houtcome
        cases produced with
        | true =>
          show t.scratchRefs = (s.overwrite (if _ then none else some (cs, true))).scratchRefs
          rw [if_pos hbad]
          exact hscratch
        | false => exact hscratch
      · rw [if_neg hbad] at houtcome
        subst houtcome
        cases produced with
        | true =>
          show t.scratchRefs.set cs () =
            (s.overwrite (if _ then none else some (cs, true))).scratchRefs
          rw [if_neg hbad, hscratch]
          rfl
        | false => exact hscratch

namespace Ledger

variable {P} {l : Ledger Checksum Buffer F} {a : Action Checksum Buffer F} {cs : Checksum}

/-- Where the word of an action falls on another checksum, or is not spoken,
the scratch status stays. -/
theorem step_isScratchRef (l : Ledger Checksum Buffer F) (a : Action Checksum Buffer F)
    (cs : Checksum) :
    (l.step P a).1.cache.isScratchRef cs =
      match a.word P l.cache with
      | some (cs', scratch) => if cs = cs' then scratch else l.cache.isScratchRef cs
      | none => l.cache.isScratchRef cs := by
  have hscratch : (l.step P a).1.cache.scratchRefs =
      (l.cache.overwrite (a.word P l.cache)).scratchRefs := act_scratchRefs P l.cache a
  rw [isScratchRef_congr hscratch]
  cases hword : a.word P l.cache with
  | none => rfl
  | some word => exact isScratchRef_overwrite l.cache cs word.1 word.2

omit P in
/-- An owner is new only by a claim, whose word is that the checksum is not
scratch. -/
theorem owned_of_book {outcome : Outcome Buffer} (h : (l.book a outcome).Owned cs) :
    l.Owned cs ∨ ∃ op owner, a = .operate op owner ∧ lastWord op = some (cs, false) := by
  unfold book at h
  unfold Owned at h ⊢
  split at h
  next cs' arg owner =>
    by_cases hcs : cs = cs'
    · subst hcs
      exact .inr ⟨_, _, rfl, rfl⟩
    · dsimp only at h
      rw [Function.update_of_ne hcs] at h
      exact .inl h
  next cs' arg owner =>
    by_cases hcs : cs = cs'
    · subst hcs
      exact .inr ⟨_, _, rfl, rfl⟩
    · dsimp only at h
      rw [Function.update_of_ne hcs] at h
      exact .inl h
  next cs' now =>
    left
    by_cases hcs : cs = cs'
    · subst hcs
      dsimp only at h
      rw [Function.update_self] at h
      omega
    · dsimp only at h
      rw [Function.update_of_ne hcs] at h
      exact h
  next cs' now =>
    left
    by_cases hcs : cs = cs'
    · subst hcs
      dsimp only at h
      rw [Function.update_self] at h
      omega
    · dsimp only at h
      rw [Function.update_of_ne hcs] at h
      exact h
  next =>
    dsimp only at h
    omega
  next => exact .inl h

/-- An action whose word is that a checksum is scratch gives no claim back. -/
theorem book_of_scratch {outcome : Outcome Buffer} {s : BufferCache Checksum Buffer F}
    (hword : a.word P s = some (cs, true)) : l.book a outcome = l := by
  unfold book
  split
  next => cases hword
  next => cases hword
  next => cases hword
  next => cases hword
  next => cases hword
  next => rfl

variable (P) in
/-- The actions that mark a checksum with an owner as scratch. -/
def MarksOwned (l : Ledger Checksum Buffer F) (a : Action Checksum Buffer F) : Prop :=
  ∃ cs, a.word P l.cache = some (cs, true) ∧ l.Owned cs

/-- Scratch status keeps respecting the owners exactly when the action marks
none of their checksums. -/
theorem step_respects (h : l.Respects) : (l.step P a).1.Respects ↔ ¬ l.MarksOwned P a := by
  constructor
  · rintro hafter ⟨cs, hword, howned⟩
    -- the word gives no claim back, so the owner is still there
    have hstill : (l.step P a).1.Owned cs := by
      have hbook : l.book a (act P l.cache a).2 = l := book_of_scratch hword
      show (l.book a (act P l.cache a).2).Owned cs
      rw [hbook]
      exact howned
    have hscratch := step_isScratchRef (P := P) l a cs
    rw [hafter cs hstill, hword] at hscratch
    simp at hscratch
  · intro hmarks cs howned
    have hbooked : (l.book a (act P l.cache a).2).Owned cs := howned
    rw [step_isScratchRef]
    -- an owner from before is spared; a new one has just had its own word
    rcases owned_of_book hbooked with hbefore | ⟨op, owner, heq, hword⟩
    · cases hword : a.word P l.cache with
      | none => exact h cs hbefore
      | some word =>
        obtain ⟨cs', scratch⟩ := word
        dsimp only
        by_cases hcs : cs = cs'
        · rw [if_pos hcs]
          cases scratch with
          | false => rfl
          | true =>
            subst hcs
            exact absurd ⟨cs, hword, hbefore⟩ hmarks
        · rw [if_neg hcs]
          exact h cs hbefore
    · have hfalse : a.word P l.cache = some (cs, false) := by
        rw [heq]
        exact hword
      rw [hfalse]
      exact if_pos rfl

omit [DecidableEq Checksum] P in
theorem Owned.not_new {cs : Checksum} : ¬ (new : Ledger Checksum Buffer F).Owned cs := by
  rintro (hmanual | hholders)
  · exact Nat.lt_irrefl 0 hmanual
  · exact Nat.lt_irrefl 0 hholders

variable (P) in
/-- The ledger after the actions, from a new cache -/
def after (actions : List (Action Checksum Buffer F)) : Ledger Checksum Buffer F :=
  Run.exec (step P) new actions

theorem after_snoc (actions : List (Action Checksum Buffer F)) (a : Action Checksum Buffer F) :
    after P (actions ++ [a]) = ((after P actions).step P a).1 := Run.exec_snoc (step P) new actions a

end Ledger

open Ledger in
/-- In every run, scratch status respects the non-scratch owners in every state
that is reached exactly when no action marks a checksum as scratch while it has
one. -/
theorem scratch_respects_owners (P : CacheParams Checksum Buffer F)
    (actions : List (Action Checksum Buffer F)) :
    (∀ before later, actions = before ++ later →
      ∀ cs, (Ledger.after P before).Owned cs →
        (Ledger.after P before).cache.isScratchRef cs = false) ↔
    ∀ before a later, actions = before ++ a :: later →
      ¬ (Ledger.after P before).MarksOwned P a := by
  constructor
  · intro hrespects before a later heq
    apply (step_respects (hrespects before (a :: later) heq)).mp
    rw [← after_snoc]
    apply hrespects (before ++ [a]) later
    rw [heq]
    simp
  · -- the step lemma, along the run
    intro hspares before
    induction before using List.reverseRecOn with
    | nil =>
      intro later _ cs howned
      exact absurd howned Owned.not_new
    | append_singleton before a ih =>
      intro later heq
      have hsplit : actions = before ++ a :: later := by
        rw [heq]
        simp
      have hstep := (step_respects (ih (a :: later) hsplit)).mpr (hspares before a later hsplit)
      rw [after_snoc]
      exact hstep

/-- A checksum with a non-scratch claim is marked scratch by an evaluation that
produces it again, and by another owner's scratch claim. -/
theorem marked_while_owned :
    (Ledger.after numberCache [.operate (.incref 1 none false) false,
        .recordResult 1 (some ⟨1, false⟩) true 0]).Owned 1 ∧
    (Ledger.after numberCache [.operate (.incref 1 none false) false,
        .recordResult 1 (some ⟨1, false⟩) true 0]).cache.isScratchRef 1 = true ∧
    (Ledger.after numberCache [.operate (.incref 1 none false) false,
        .operate (.incref 1 none true) false]).Owned 1 ∧
    (Ledger.after numberCache [.operate (.incref 1 none false) false,
        .operate (.incref 1 none true) false]).cache.isScratchRef 1 = true :=
  ⟨.inl (by decide), by decide, .inl (by decide), by decide⟩

end SeamlessCore.BufferCache
