/-
  SeamlessCore.Cache.Accounting — reference accounting of the buffer cache.

  What protects a buffer is a triple of claims: the manual references and the
  bridge of its strong entry, and its refholder count.  A missing entry reads
  as no claims.  Every helper of the cache leaves all claims as they are
  (removing an unclaimed entry included), so the four claim operations are
  the only ones that move the ledger, each by one and at its own checksum.

  Main results:
    * `step_books` — what one operation does to the claims;
    * `step_wellClaimed` — counts stay non-negative, and the bridge of an
      entry stands exactly while the checksum has refholders;
    * `removed_by_release` — a claimed entry goes only with its last claim.
-/
import SeamlessCore.Cache.BufferCache

namespace SeamlessCore.BufferCache

variable {Checksum Buffer F : Type} [DecidableEq Checksum]

/-! ## §1. Claims. -/

/-- The claims on one checksum. -/
structure Claims where
  manual : Int
  bridge : Bool
  holders : Int

/-- The manual reference count; zero without a strong entry. -/
def manualRefs (s : BufferCache Checksum Buffer F) (cs : Checksum) : Int :=
  ((s.strongCache.lookup cs).map StrongEntry.manualRefs).getD 0

/-- Whether a strong entry exists with its refholder bridge set. -/
def hasBridge (s : BufferCache Checksum Buffer F) (cs : Checksum) : Bool :=
  ((s.strongCache.lookup cs).map StrongEntry.hasRefholderBridge).getD false

/-- The refholder count. -/
def refholderCount (s : BufferCache Checksum Buffer F) (cs : Checksum) : Int :=
  (s.refholderCounts.lookup cs).getD 0

/-- The claims on a checksum. -/
def claimsAt (s : BufferCache Checksum Buffer F) (cs : Checksum) : Claims :=
  ⟨manualRefs s cs, hasBridge s cs, refholderCount s cs⟩

/-- Two states with the same claims everywhere. -/
def SameClaims (s s' : BufferCache Checksum Buffer F) : Prop :=
  ∀ cs, claimsAt s' cs = claimsAt s cs

theorem SameClaims.refl (s : BufferCache Checksum Buffer F) : SameClaims s s := fun _ => rfl

theorem SameClaims.trans {s t u : BufferCache Checksum Buffer F} (h : SameClaims s t)
    (h' : SameClaims t u) : SameClaims s u := by
  intro cs
  rw [h' cs, h cs]

/-- Claims are read off the strong store and the refholder counts. -/
theorem sameClaims_of_eq {s s' : BufferCache Checksum Buffer F}
    (hstrong : s'.strongCache = s.strongCache)
    (hcounts : s'.refholderCounts = s.refholderCounts) : SameClaims s s' := by
  intro cs
  simp only [claimsAt, manualRefs, hasBridge, refholderCount, hstrong, hcounts]

theorem claimsAt_entry {s : BufferCache Checksum Buffer F} {cs : Checksum}
    {e : StrongEntry Buffer F} (h : s.strongCache.lookup cs = some e) :
    claimsAt s cs = ⟨e.manualRefs, e.hasRefholderBridge, refholderCount s cs⟩ := by
  simp [claimsAt, manualRefs, hasBridge, h]

theorem claimsAt_setEntry (s : BufferCache Checksum Buffer F) (cs k : Checksum)
    (e : StrongEntry Buffer F) :
    claimsAt (s.setEntry cs e) k =
      if k = cs then ⟨e.manualRefs, e.hasRefholderBridge, refholderCount s cs⟩
      else claimsAt s k := by
  by_cases hk : k = cs
  · rw [if_pos hk, hk]
    exact claimsAt_entry (Dict.lookup_set_self _ _ _)
  · rw [if_neg hk]
    simp only [claimsAt, manualRefs, hasBridge, refholderCount, setEntry, Dict.lookup_set_ne _ _ hk]

/-- An update that keeps the claims of its entry. -/
theorem sameClaims_setEntry {s : BufferCache Checksum Buffer F} {cs : Checksum}
    {e e' : StrongEntry Buffer F} (h : s.strongCache.lookup cs = some e)
    (hm : e'.manualRefs = e.manualRefs) (hb : e'.hasRefholderBridge = e.hasRefholderBridge) :
    SameClaims s (s.setEntry cs e') := by
  intro k
  rw [claimsAt_setEntry]
  by_cases hk : k = cs
  · rw [if_pos hk, hk, claimsAt_entry h, hm, hb]
  · rw [if_neg hk]

/-- A new entry without claims, where none was. -/
theorem sameClaims_newEntry {s : BufferCache Checksum Buffer F} {cs : Checksum}
    {e : StrongEntry Buffer F} (h : s.strongCache.lookup cs = none)
    (hm : e.manualRefs = 0) (hb : e.hasRefholderBridge = false) :
    SameClaims s (s.setEntry cs e) := by
  intro k
  rw [claimsAt_setEntry]
  by_cases hk : k = cs
  · rw [if_pos hk, hk, hm, hb]
    simp [claimsAt, manualRefs, hasBridge, h]
  · rw [if_neg hk]

/-- The removal of an entry without claims. -/
theorem sameClaims_erase {s s' : BufferCache Checksum Buffer F} {cs : Checksum}
    {e : StrongEntry Buffer F} (h : s.strongCache.lookup cs = some e)
    (hm : e.manualRefs = 0) (hb : e.hasRefholderBridge = false)
    (hstrong : s'.strongCache = s.strongCache.erase cs)
    (hcounts : s'.refholderCounts = s.refholderCounts) : SameClaims s s' := by
  intro k
  by_cases hk : k = cs
  · rw [hk, claimsAt_entry h, hm, hb]
    simp [claimsAt, manualRefs, hasBridge, refholderCount, hstrong, hcounts]
  · simp only [claimsAt, manualRefs, hasBridge, refholderCount, hstrong, hcounts,
      Dict.lookup_erase, if_neg hk]

/-! ## §2. The helpers leave all claims alone. -/

theorem handOver_claims (s : BufferCache Checksum Buffer F) (w : Option Buffer) :
    SameClaims s (s.handOver w) := sameClaims_of_eq rfl rfl

theorem noteSize_claims (s : BufferCache Checksum Buffer F) (cs : Checksum) (size : Option Nat) :
    SameClaims s (s.noteSize cs size) := by
  cases size <;> exact sameClaims_of_eq rfl rfl

/-- Demotion removes an entry only when nothing claims it. -/
theorem demote_claims (f : FloatOps F) (s : BufferCache Checksum Buffer F) (cs : Checksum)
    (now : F) : SameClaims s (demote f s cs now) := by
  unfold demote
  split
  · exact SameClaims.refl s
  · next e he =>
    split
    · next hcan =>
      simp only [canDemote, Bool.and_eq_true, beq_iff_eq, Bool.not_eq_true'] at hcan
      exact sameClaims_erase he hcan.1.1 hcan.1.2 rfl rfl
    · exact SameClaims.refl s

/-- Dropping a tempref and demoting moves no claim either. -/
theorem dropTempref_claims (f : FloatOps F) {s : BufferCache Checksum Buffer F} {cs : Checksum}
    {e : StrongEntry Buffer F} (h : s.strongCache.lookup cs = some e) (now : F) :
    SameClaims s (demote f (s.setEntry cs { e with tempref := none }) cs now) := by
  have hset : SameClaims s (s.setEntry cs { e with tempref := none }) :=
    sameClaims_setEntry h rfl rfl
  exact hset.trans (demote_claims f _ cs now)

variable (P : CacheParams Checksum Buffer F)

theorem registerLocked_claims (s : BufferCache Checksum Buffer F) (cs : Checksum) (b : Buffer)
    (size : Option Nat) : SameClaims s (registerLocked P s cs b size).1 := by
  unfold registerLocked
  -- the sizes and the weak store come first; they hold no claims
  set s₁ := s.noteSize cs (size <|> P.lengthAttr b <|> s.sizes.lookup cs) with hs₁
  set s₂ : BufferCache Checksum Buffer F := { s₁ with weakCache := s₁.weakCache.set cs b } with hs₂
  have h₁ : SameClaims s s₁ := noteSize_claims s cs _
  have h₂ : SameClaims s₁ s₂ := sameClaims_of_eq rfl rfl
  have h₁₂ : SameClaims s s₂ := h₁.trans h₂
  dsimp only
  split
  · exact h₁₂
  · next e he => exact h₁₂.trans (sameClaims_setEntry he rfl rfl)

theorem register_claims (s : BufferCache Checksum Buffer F) (cs : Checksum) (b : Buffer)
    (size : Option Nat) : SameClaims s (register P s cs b size) :=
  (registerLocked_claims P s cs b size).trans (handOver_claims _ _)

omit P in
theorem get_claims (s : BufferCache Checksum Buffer F) (cs : Checksum) :
    SameClaims s (get s cs).1 := by
  unfold get
  split
  · exact SameClaims.refl s
  · next e he =>
    split
    · exact SameClaims.refl s
    · split
      · exact SameClaims.refl s
      · exact sameClaims_setEntry he rfl rfl

theorem getChecksum_claims (s : BufferCache Checksum Buffer F)
    (arg : Option (BufferArg Buffer)) : SameClaims s (getChecksum P s arg) := by
  unfold getChecksum
  split
  · exact register_claims P s _ _ _
  · exact SameClaims.refl s

omit P [DecidableEq Checksum] in
theorem attach_claims (e : StrongEntry Buffer F) (buffer : Option Buffer) (writeRemote : Bool) :
    (attach e buffer writeRemote).1.manualRefs = e.manualRefs ∧
      (attach e buffer writeRemote).1.hasRefholderBridge = e.hasRefholderBridge := by
  unfold attach
  cases he : e.buffer <;> cases buffer <;> cases writeRemote <;> cases hr : e.remoteRegistered <;>
    simp [hr]

/-- Ensuring an entry leaves the claims alone, and on success there is one. -/
theorem ensureEntry_claims (s : BufferCache Checksum Buffer F) (cs : Checksum)
    (arg : Option (BufferArg Buffer)) (scratch : Bool) :
    SameClaims s (ensureEntry P s cs arg scratch).1 ∧
      ∀ w, (ensureEntry P s cs arg scratch).2 = some w →
        ∃ e, (ensureEntry P s cs arg scratch).1.strongCache.lookup cs = some e := by
  unfold ensureEntry
  set s₁ := getChecksum P s arg with hs₁
  have h₁ : SameClaims s s₁ := getChecksum_claims P s arg
  simp only
  split
  · exact ⟨h₁, fun w hw => by cases hw⟩
  · split
    · next hnone =>
      set size := s₁.sizes.lookup cs <|> Option.bind _ P.lengthAttr with hsize
      have h₂ : SameClaims s (s₁.noteSize cs size) := h₁.trans (noteSize_claims s₁ cs size)
      have hnone' : (s₁.noteSize cs size).strongCache.lookup cs = none := by
        rw [← hnone]
        cases size <;> rfl
      refine ⟨h₂.trans (sameClaims_newEntry hnone' rfl rfl), fun w _ => ?_⟩
      exact ⟨_, Dict.lookup_set_self _ _ _⟩
    · next e he =>
      obtain ⟨hm, hb⟩ := attach_claims e (arg.map BufferArg.buffer <|> s.weakCache.lookup cs) (!scratch)
      refine ⟨h₁.trans (sameClaims_setEntry he hm hb), fun w _ => ?_⟩
      exact ⟨_, Dict.lookup_set_self _ _ _⟩

omit P in
theorem purgeOne_claims (s : BufferCache Checksum Buffer F) (cs : Checksum) :
    SameClaims s (purgeOne s cs).1 := by
  unfold purgeOne
  split
  · split
    · exact sameClaims_of_eq rfl rfl
    · exact SameClaims.refl s
  · next e he =>
    split
    · exact SameClaims.refl s
    · next hno =>
      split
      · exact SameClaims.refl s
      · have hm : e.manualRefs = 0 := by
          by_contra h
          exact hno (Or.inl h)
        have hb : e.hasRefholderBridge = false := by
          by_contra h
          exact hno (Or.inr (by simpa using h))
        exact sameClaims_erase he hm hb rfl rfl

omit P in
theorem purgeScratch_claims (s : BufferCache Checksum Buffer F) (cs : Option Checksum) :
    SameClaims s (purgeScratch s cs).1 := by
  have hfold : ∀ (keys : List Checksum) (t : BufferCache Checksum Buffer F) (n : Nat),
      SameClaims t (keys.foldl
        (fun acc cs => ((purgeOne acc.1 cs).1, acc.2 + (purgeOne acc.1 cs).2)) (t, n)).1 := by
    intro keys
    induction keys with
    | nil => intro t n; exact SameClaims.refl t
    | cons k ks ih =>
      intro t n
      exact (purgeOne_claims t k).trans (ih _ _)
  exact hfold _ s 0

theorem expireOne_claims (r : EvictionReadings Checksum F) (s : BufferCache Checksum Buffer F)
    (cs : Checksum) : SameClaims s (expireOne P r s cs) := by
  unfold expireOne
  split
  · exact SameClaims.refl s
  · next e he =>
    split
    · exact SameClaims.refl s
    · simp only
      split
      · exact dropTempref_claims P.float he _
      · exact SameClaims.refl s

theorem evictLoop_claims (r : EvictionReadings Checksum F) (cands : List (F × Checksum)) :
    ∀ (current : Int) (s : BufferCache Checksum Buffer F),
      SameClaims s (evictLoop P r current cands s).2 := by
  induction cands with
  | nil => intro current s; exact SameClaims.refl s
  | cons c rest ih =>
    intro current s
    obtain ⟨score, cs⟩ := c
    unfold evictLoop
    split
    · exact SameClaims.refl s
    · split
      · exact ih current s
      · split
        · exact ih current s
        · next e he => exact (dropTempref_claims P.float he _).trans (ih _ _)

theorem runEvictionOnce_claims (r : EvictionReadings Checksum F)
    (s : BufferCache Checksum Buffer F) : SameClaims s (runEvictionOnce P r s).1 := by
  have hexpire : SameClaims s (expireTemprefs P r s) := by
    have hfold : ∀ (keys : List Checksum) (t : BufferCache Checksum Buffer F),
        SameClaims t (keys.foldl (expireOne P r) t) := by
      intro keys
      induction keys with
      | nil => intro t; exact SameClaims.refl t
      | cons k ks ih => intro t; exact (expireOne_claims P r t k).trans (ih _)
    exact hfold _ s
  unfold runEvictionOnce
  simp only
  split
  · exact hexpire
  · exact hexpire.trans (evictLoop_claims P r _ _ _)

/-! ## §3. The ledger. -/

/-- A step that took one manual reference on `cs`. -/
def isIncref (cs : Checksum) : Op Checksum Buffer F × Outcome Buffer → Bool
  | (.incref k _ _, .done) => k = cs
  | _ => false

/-- A step that gave one back. -/
def isDecref (cs : Checksum) : Op Checksum Buffer F × Outcome Buffer → Bool
  | (.decref k _, .released true) => k = cs
  | _ => false

/-- A step that acquired a refholder on `cs`. -/
def isAcquire (cs : Checksum) : Op Checksum Buffer F × Outcome Buffer → Bool
  | (.increfRefholder k _ _, .done) => k = cs
  | _ => false

/-- A step that released one. -/
def isRelease (cs : Checksum) : Op Checksum Buffer F × Outcome Buffer → Bool
  | (.decrefRefholder k _, .released true) => k = cs
  | _ => false

/-- Counts are not negative, and a bridge stands exactly while there are
refholders. -/
def WellClaimed (s : BufferCache Checksum Buffer F) : Prop :=
  ∀ cs, 0 ≤ manualRefs s cs ∧ 0 ≤ refholderCount s cs ∧
    (hasBridge s cs = true ↔ 0 < refholderCount s cs)

/-- What the ledger does to the claims on `cs` at one step. -/
def Claims.book (cs : Checksum) (e : Op Checksum Buffer F × Outcome Buffer) (c : Claims) :
    Claims :=
  if isIncref cs e then { c with manual := c.manual + 1 }
  else if isDecref cs e then { c with manual := c.manual - 1 }
  else if isAcquire cs e then { c with holders := c.holders + 1, bridge := true }
  else if isRelease cs e then
    { c with holders := c.holders - 1, bridge := decide (1 < c.holders) }
  else c

/-- An operation that ensures an entry either raises and books nothing, or
applies its update to a state with the same claims and an entry. -/
theorem withEntry_cases (s : BufferCache Checksum Buffer F) (cs : Checksum)
    (arg : Option (BufferArg Buffer)) (scratch : Bool)
    (update : BufferCache Checksum Buffer F → BufferCache Checksum Buffer F) :
    ((withEntry P s cs arg scratch update).2 = .assertionError ∧
      SameClaims s (withEntry P s cs arg scratch update).1) ∨
    ((withEntry P s cs arg scratch update).2 = .done ∧
      ∃ t e, SameClaims s t ∧ t.strongCache.lookup cs = some e ∧
        SameClaims (update t) (withEntry P s cs arg scratch update).1) := by
  obtain ⟨hclaims, hentry⟩ := ensureEntry_claims P s cs arg scratch
  unfold withEntry
  cases h : ensureEntry P s cs arg scratch with
  | mk t w =>
    rw [h] at hclaims hentry
    cases w with
    | none => exact Or.inl ⟨rfl, hclaims⟩
    | some w =>
      obtain ⟨e, he⟩ := hentry w rfl
      exact Or.inr ⟨rfl, t, e, hclaims, he, handOver_claims _ _⟩

omit P in
theorem claimsAt_updateEntry {s : BufferCache Checksum Buffer F} {cs : Checksum}
    {e : StrongEntry Buffer F} (h : s.strongCache.lookup cs = some e)
    (update : StrongEntry Buffer F → StrongEntry Buffer F) (k : Checksum) :
    claimsAt (s.updateEntry cs update) k =
      if k = cs then
        ⟨(update e).manualRefs, (update e).hasRefholderBridge, refholderCount s cs⟩
      else claimsAt s k := by
  unfold updateEntry
  rw [h]
  exact claimsAt_setEntry s cs k _

omit P in
theorem claimsAt_setCount (s : BufferCache Checksum Buffer F) (cs : Checksum) (n : Int)
    (k : Checksum) :
    claimsAt (s.setCount cs n) k =
      if k = cs then { claimsAt s cs with holders := n } else claimsAt s k := by
  by_cases hk : k = cs
  · rw [if_pos hk, hk]
    simp [claimsAt, manualRefs, hasBridge, refholderCount, setCount]
  · rw [if_neg hk]
    simp [claimsAt, manualRefs, hasBridge, refholderCount, setCount, Dict.lookup_set_ne _ _ hk]

omit P in
theorem claimsAt_dropCount (s : BufferCache Checksum Buffer F) (cs k : Checksum) :
    claimsAt (s.dropCount cs) k =
      if k = cs then { claimsAt s cs with holders := 0 } else claimsAt s k := by
  by_cases hk : k = cs
  · rw [if_pos hk, hk]
    simp [claimsAt, manualRefs, hasBridge, refholderCount, dropCount]
  · rw [if_neg hk]
    simp only [claimsAt, manualRefs, hasBridge, refholderCount, dropCount, Dict.lookup_erase,
      if_neg hk]

omit P in
/-- Booking a refholder: the bridge stood already if there was one. -/
theorem addHolder_claims {s : BufferCache Checksum Buffer F} {cs : Checksum}
    {e : StrongEntry Buffer F} (h : s.strongCache.lookup cs = some e)
    (hbridge : refholderCount s cs ≠ 0 → e.hasRefholderBridge = true) (k : Checksum) :
    claimsAt (s.addHolder cs) k =
      if k = cs then ⟨e.manualRefs, true, refholderCount s cs + 1⟩ else claimsAt s k := by
  unfold addHolder
  show claimsAt (setCount (if refholderCount s cs = 0 then _ else s) cs (refholderCount s cs + 1)) k
    = _
  rw [claimsAt_setCount]
  by_cases hzero : refholderCount s cs = 0
  · rw [if_pos hzero, claimsAt_updateEntry h, claimsAt_updateEntry h]
    by_cases hk : k = cs <;> simp [hk]
  · rw [if_neg hzero, claimsAt_entry h, hbridge hzero]

/-! ### One step. -/

/-- The claims that `book` does not touch. -/
theorem Claims.book_other {cs : Checksum} {e : Op Checksum Buffer F × Outcome Buffer}
    (h₁ : isIncref cs e = false) (h₂ : isDecref cs e = false) (h₃ : isAcquire cs e = false)
    (h₄ : isRelease cs e = false) (c : Claims) : c.book cs e = c := by
  unfold Claims.book
  rw [h₁, h₂, h₃, h₄]
  rfl

omit P in
/-- A call takes or gives back one claim. -/
theorem one_kind (cs : Checksum) (e : Op Checksum Buffer F × Outcome Buffer) :
    (isIncref cs e = true → isDecref cs e = false ∧ isAcquire cs e = false ∧
      isRelease cs e = false) ∧
    (isDecref cs e = true → isAcquire cs e = false ∧ isRelease cs e = false) ∧
    (isAcquire cs e = true → isRelease cs e = false) := by
  obtain ⟨op, outcome⟩ := e
  cases op <;> simp [isIncref, isDecref, isAcquire, isRelease]

omit P in
/-- What a booking does to the two counts. -/
theorem Claims.book_counts (cs : Checksum) (e : Op Checksum Buffer F × Outcome Buffer)
    (c : Claims) :
    (c.book cs e).manual =
      c.manual + ((if isIncref cs e then (1 : Int) else 0) - if isDecref cs e then 1 else 0) ∧
    (c.book cs e).holders =
      c.holders + ((if isAcquire cs e then (1 : Int) else 0) - if isRelease cs e then 1 else 0) := by
  obtain ⟨hincref, hdecref, hacquire⟩ := one_kind cs e
  unfold Claims.book
  by_cases h₁ : isIncref cs e = true
  · obtain ⟨h₂, h₃, h₄⟩ := hincref h₁
    simp [h₁, h₂, h₃, h₄]
  by_cases h₂ : isDecref cs e = true
  · obtain ⟨h₃, h₄⟩ := hdecref h₂
    simp [h₁, h₂, h₃, h₄]
    omega
  by_cases h₃ : isAcquire cs e = true
  · simp [h₁, h₂, h₃, hacquire h₃]
  by_cases h₄ : isRelease cs e = true
  · simp [h₁, h₂, h₃, h₄]
    omega
  · simp [h₁, h₂, h₃, h₄]

/-- The operation books its outcome, and moves no other claim. -/
def Books (s : BufferCache Checksum Buffer F) (op : Op Checksum Buffer F) : Prop :=
  ∀ k, claimsAt (step P s op).1 k = (claimsAt s k).book k (op, (step P s op).2)

theorem incref_books (s : BufferCache Checksum Buffer F) (cs : Checksum)
    (arg : Option (BufferArg Buffer)) (scratch : Bool) : Books P s (.incref cs arg scratch) := by
  intro k
  set s₀ := if scratch then s.addScratch cs else s.discardScratch cs with hs₀
  have h₀ : SameClaims s s₀ := by
    rw [hs₀]
    split <;> exact sameClaims_of_eq rfl rfl
  have hdef : step P s (.incref cs arg scratch) = withEntry P s₀ cs arg scratch
      fun s => s.updateEntry cs fun e => { e with manualRefs := e.manualRefs + 1 } := rfl
  rw [hdef]
  rcases withEntry_cases P s₀ cs arg scratch _ with ⟨hout, hsame⟩ | ⟨hout, t, e, hst, he, hsame⟩
  · rw [hout, hsame k, h₀ k, Claims.book_other rfl rfl rfl rfl]
  · have hk := (h₀.trans hst) k
    rw [hout, hsame k, claimsAt_updateEntry he]
    by_cases heq : k = cs
    · rw [if_pos heq, ← hk, heq, claimsAt_entry he]
      simp [Claims.book, isIncref]
    · rw [if_neg heq, hk, Claims.book_other _ rfl rfl rfl]
      simp [isIncref, Ne.symm heq]

theorem decref_books (s : BufferCache Checksum Buffer F) (cs : Checksum) (now : F) :
    Books P s (.decref cs now) := by
  intro k
  show claimsAt (decref P s cs now).1 k = (claimsAt s k).book k (_, (decref P s cs now).2)
  unfold decref
  split
  · rw [Claims.book_other rfl rfl rfl rfl]
  · next e he =>
    split
    · rw [Claims.book_other rfl rfl rfl rfl]
    · show claimsAt (demote P.float (s.setEntry cs _) cs now) k = _
      rw [demote_claims P.float _ cs now k, claimsAt_setEntry]
      by_cases heq : k = cs
      · rw [if_pos heq, heq, claimsAt_entry he]
        simp [Claims.book, isIncref, isDecref]
      · rw [if_neg heq, Claims.book_other rfl _ rfl rfl]
        simp [isDecref, Ne.symm heq]

/-- The scratch record after the `scratch` argument of `incref_refholder` -/
def noteScratch (s : BufferCache Checksum Buffer F) (cs : Checksum) :
    Option Bool → BufferCache Checksum Buffer F
  | some true => s.addScratch cs
  | some false => s.discardScratch cs
  | none => s

theorem increfRefholder_books {s : BufferCache Checksum Buffer F} (hs : WellClaimed s)
    (cs : Checksum) (arg : Option (BufferArg Buffer)) (scratch : Option Bool) :
    Books P s (.increfRefholder cs arg scratch) := by
  intro k
  set s₀ : BufferCache Checksum Buffer F := s.noteScratch cs scratch with hs₀
  have h₀ : SameClaims s s₀ := by
    rw [hs₀]
    rcases scratch with _ | _ | _ <;> exact sameClaims_of_eq rfl rfl
  have hdef : step P s (.increfRefholder cs arg scratch)
      = withEntry P s₀ cs arg (scratch ≠ some false) fun s => s.addHolder cs := rfl
  rw [hdef]
  rcases withEntry_cases P s₀ cs arg (scratch ≠ some false) (fun s => s.addHolder cs) with
    ⟨hout, hsame⟩ | ⟨hout, t, e, hst, he, hsame⟩
  · rw [hout, hsame k, h₀ k, Claims.book_other rfl rfl rfl rfl]
  · have hcs := (h₀.trans hst) cs
    have hk := (h₀.trans hst) k
    have hbridge : refholderCount t cs ≠ 0 → e.hasRefholderBridge = true := by
      intro hne
      obtain ⟨-, hnonneg, hiff⟩ := hs cs
      have hb : hasBridge t cs = hasBridge s cs := congrArg Claims.bridge hcs
      have hh : refholderCount t cs = refholderCount s cs := congrArg Claims.holders hcs
      have hentry : hasBridge t cs = e.hasRefholderBridge :=
        congrArg Claims.bridge (claimsAt_entry he)
      rw [← hentry, hb]
      apply hiff.mpr
      omega
    rw [hout, hsame k, addHolder_claims he hbridge]
    by_cases heq : k = cs
    · rw [if_pos heq, ← hk, heq, claimsAt_entry he]
      simp [Claims.book, isIncref, isDecref, isAcquire]
    · rw [if_neg heq, hk, Claims.book_other rfl rfl _ rfl]
      simp [isAcquire, Ne.symm heq]

theorem decrefRefholder_books {s : BufferCache Checksum Buffer F} (hs : WellClaimed s)
    (cs : Checksum) (now : F) : Books P s (.decrefRefholder cs now) := by
  intro k
  obtain ⟨-, hnonneg, hiff⟩ := hs cs
  have hdef : step P s (.decrefRefholder cs now) =
      if refholderCount s cs = 0 then (s, .released false)
      else if refholderCount s cs = 1 then
        (demote P.float ((s.dropCount cs).updateEntry cs
          fun e => { e with hasRefholderBridge := false }) cs now, .released true)
      else (s.setCount cs (refholderCount s cs - 1), .released true) := rfl
  rw [hdef]
  by_cases hzero : refholderCount s cs = 0
  · rw [if_pos hzero, Claims.book_other rfl rfl rfl rfl]
  rw [if_neg hzero]
  by_cases hone : refholderCount s cs = 1
  · -- the last refholder takes the bridge with it
    rw [if_pos hone]
    obtain ⟨e, he, hb⟩ : ∃ e, s.strongCache.lookup cs = some e ∧ e.hasRefholderBridge = true := by
      have hbridge := hiff.mpr (by omega)
      unfold hasBridge at hbridge
      cases he : s.strongCache.lookup cs with
      | none => rw [he] at hbridge; cases hbridge
      | some e => rw [he] at hbridge; exact ⟨e, rfl, hbridge⟩
    have he' : (s.dropCount cs).strongCache.lookup cs = some e := he
    show claimsAt (demote P.float ((s.dropCount cs).updateEntry cs _) cs now) k = _
    rw [demote_claims P.float _ cs now k, claimsAt_updateEntry he']
    by_cases heq : k = cs
    · have hdrop : refholderCount (s.dropCount cs) cs = 0 := by
        simp [refholderCount, dropCount]
      rw [if_pos heq, heq, claimsAt_entry he, hdrop]
      simp [Claims.book, isIncref, isDecref, isAcquire, isRelease, hone]
    · rw [if_neg heq, claimsAt_dropCount, if_neg heq, Claims.book_other rfl rfl rfl _]
      simp [isRelease, Ne.symm heq]
  · rw [if_neg hone]
    show claimsAt (s.setCount cs (refholderCount s cs - 1)) k = _
    rw [claimsAt_setCount]
    by_cases heq : k = cs
    · have hbridge : hasBridge s cs = true := hiff.mpr (by omega)
      have hmore : 1 < refholderCount s cs := by omega
      rw [if_pos heq, heq]
      simp [Claims.book, isIncref, isDecref, isAcquire, isRelease, claimsAt, hbridge, hmore]
    · rw [if_neg heq, Claims.book_other rfl rfl rfl _]
      simp [isRelease, Ne.symm heq]

/-- One operation books its outcome in the ledger, and moves no other claim. -/
theorem step_books {s : BufferCache Checksum Buffer F} (hs : WellClaimed s)
    (op : Op Checksum Buffer F) : Books P s op := by
  intro k
  cases op with
  | incref cs arg scratch => exact incref_books P s cs arg scratch k
  | decref cs now => exact decref_books P s cs now k
  | increfRefholder cs arg scratch => exact increfRefholder_books P hs cs arg scratch k
  | decrefRefholder cs now => exact decrefRefholder_books P hs cs now k
  | register cs b size => exact register_claims P s cs b size k
  | get cs => exact get_claims s cs k
  | tempref cs arg interest fadeFactor fadeInterval now =>
    show claimsAt (withEntry P s cs arg true _).1 k = claimsAt s k
    rcases withEntry_cases P s cs arg true (fun s => s.updateEntry cs fun e =>
        { e with
          tempref := some
            (refreshedTempref P.float e.tempref interest fadeFactor fadeInterval now)
          temprefScratch := true }) with ⟨-, hsame⟩ | ⟨-, t, e, hst, he, hsame⟩
    · exact hsame k
    · rw [← hst k, hsame k, claimsAt_updateEntry he]
      by_cases hk : k = cs
      · rw [if_pos hk, hk, claimsAt_entry he]
      · rw [if_neg hk]
  | transferWrite cs arg =>
    have hdiscard : SameClaims s (s.discardScratch cs) := sameClaims_of_eq rfl rfl
    show claimsAt (withEntry P (s.discardScratch cs) cs arg false id).1 k = claimsAt s k
    rcases withEntry_cases P (s.discardScratch cs) cs arg false id with
      ⟨-, hsame⟩ | ⟨-, t, e, hst, he, hsame⟩
    · exact (hdiscard.trans hsame) k
    · exact ((hdiscard.trans hst).trans hsame) k
  | markScratch cs =>
    show claimsAt (s.addScratch cs) k = claimsAt s k
    exact sameClaims_of_eq rfl rfl k
  | purgeScratch cs => exact purgeScratch_claims s cs k
  | runEvictionOnce r => exact runEvictionOnce_claims P r s k
  | collect cs => exact sameClaims_of_eq rfl rfl k

/-! ## §4. Runs. -/

/-- A successful decref had a manual reference to give back. -/
theorem manualRefs_ne_zero_of_decref {s : BufferCache Checksum Buffer F}
    {op : Op Checksum Buffer F} {cs : Checksum}
    (h : isDecref cs (op, (step P s op).2) = true) : manualRefs s cs ≠ 0 := by
  cases op with
  | decref k now =>
    have hout : (step P s (.decref k now)).2 = (decref P s k now).2 := rfl
    rw [hout] at h
    unfold decref at h
    split at h
    · cases h
    · next e he =>
      split at h
      · cases h
      · next hne =>
        have hk : k = cs := by simpa [isDecref] using h
        rw [← hk]
        simpa [manualRefs, he] using hne
  | _ => simp [isDecref] at h

/-- A successful release had a refholder to give back. -/
theorem refholderCount_ne_zero_of_release {s : BufferCache Checksum Buffer F}
    {op : Op Checksum Buffer F} {cs : Checksum}
    (h : isRelease cs (op, (step P s op).2) = true) : refholderCount s cs ≠ 0 := by
  cases op with
  | decrefRefholder k now =>
    have hout : (step P s (.decrefRefholder k now)).2 = (decrefRefholder P s k now).2 := rfl
    rw [hout] at h
    unfold decrefRefholder at h
    intro hzero
    by_cases hk : k = cs
    · have hcount : (s.refholderCounts.lookup k).getD 0 = 0 := by
        rw [hk]
        exact hzero
      simp [hcount, isRelease] at h
    · have hno : isRelease cs (Op.decrefRefholder k now, (decrefRefholder P s k now).2)
          = false := by
        unfold isRelease
        split
        · next heq =>
          have hkk := congrArg Prod.fst heq
          injection hkk with hkk _
          rw [← hkk]
          simp [hk]
        · rfl
      unfold decrefRefholder at hno
      rw [hno] at h
      cases h
  | _ => simp [isRelease] at h

theorem step_wellClaimed {s : BufferCache Checksum Buffer F} (hs : WellClaimed s)
    (op : Op Checksum Buffer F) : WellClaimed (step P s op).1 := by
  intro cs
  obtain ⟨hmanual, hholders, hiff⟩ := hs cs
  have hbook := step_books P hs op cs
  have hdecref : isDecref cs (op, (step P s op).2) = true → manualRefs s cs ≠ 0 :=
    manualRefs_ne_zero_of_decref P
  have hrelease : isRelease cs (op, (step P s op).2) = true → refholderCount s cs ≠ 0 :=
    refholderCount_ne_zero_of_release P
  have hm := congrArg Claims.manual hbook
  have hb := congrArg Claims.bridge hbook
  have hh := congrArg Claims.holders hbook
  show 0 ≤ (claimsAt _ cs).manual ∧ 0 ≤ (claimsAt _ cs).holders ∧
    ((claimsAt _ cs).bridge = true ↔ 0 < (claimsAt _ cs).holders)
  rw [hm, hb, hh]
  -- one case for each of the four claim operations, and one for the rest
  unfold Claims.book
  split
  · refine ⟨?_, hholders, hiff⟩
    show 0 ≤ manualRefs s cs + 1
    omega
  · split
    · next hdec =>
      have hne := hdecref hdec
      refine ⟨?_, hholders, hiff⟩
      show 0 ≤ manualRefs s cs - 1
      omega
    · split
      · refine ⟨hmanual, ?_, ?_⟩
        · show 0 ≤ refholderCount s cs + 1
          omega
        · show true = true ↔ 0 < refholderCount s cs + 1
          have hpos : 0 < refholderCount s cs + 1 := by omega
          simp [hpos]
      · split
        · next hrel =>
          have hne := hrelease hrel
          refine ⟨hmanual, ?_, ?_⟩
          · show 0 ≤ refholderCount s cs - 1
            omega
          · show decide (1 < refholderCount s cs) = true ↔ 0 < refholderCount s cs - 1
            rw [decide_eq_true_eq]
            omega
        · exact ⟨hmanual, hholders, hiff⟩

omit P in
theorem new_wellClaimed : WellClaimed (new : BufferCache Checksum Buffer F) := by
  intro cs
  simp [manualRefs, refholderCount, hasBridge, new]

/-- The state after a run from the empty cache. -/
def after (ops : List (Op Checksum Buffer F)) : BufferCache Checksum Buffer F :=
  Run.exec (step P) new ops

/-- The operations of a run with their outcomes. -/
def history (ops : List (Op Checksum Buffer F)) :
    List (Op Checksum Buffer F × Outcome Buffer) :=
  Run.trace (step P) new ops

/-- The only way to lose a claimed entry is to give back its last claim. -/
theorem removed_by_release {s : BufferCache Checksum Buffer F} (hs : WellClaimed s)
    {op : Op Checksum Buffer F} {cs : Checksum} {e : StrongEntry Buffer F}
    (he : s.strongCache.lookup cs = some e)
    (hclaimed : e.manualRefs ≠ 0 ∨ e.hasRefholderBridge = true)
    (hgone : (step P s op).1.strongCache.lookup cs = none) :
    (isDecref cs (op, (step P s op).2) = true ∧ e.manualRefs = 1 ∧
      e.hasRefholderBridge = false) ∨
    (isRelease cs (op, (step P s op).2) = true ∧ refholderCount s cs = 1 ∧
      e.manualRefs = 0) := by
  have hbook := step_books P hs op cs
  obtain ⟨hmanual', hholders', hiff'⟩ := step_wellClaimed P hs op cs
  obtain ⟨hmanual, hholders, hiff⟩ := hs cs
  have hm : manualRefs s cs = e.manualRefs := congrArg Claims.manual (claimsAt_entry he)
  have hb : hasBridge s cs = e.hasRefholderBridge := congrArg Claims.bridge (claimsAt_entry he)
  -- without an entry the checksum has no claims
  have hm' : manualRefs (step P s op).1 cs = 0 := by simp [manualRefs, hgone]
  have hb' : hasBridge (step P s op).1 cs = false := by simp [hasBridge, hgone]
  have hbm := congrArg Claims.manual hbook
  have hbb := congrArg Claims.bridge hbook
  have hbh := congrArg Claims.holders hbook
  simp only [claimsAt, hm', hb'] at hbm hbb hbh
  unfold Claims.book at hbm hbb hbh
  by_cases h₁ : isIncref cs (op, (step P s op).2) = true
  · simp only [h₁, if_true] at hbm
    omega
  simp only [h₁, if_false, Bool.false_eq_true] at hbm hbb hbh
  by_cases h₂ : isDecref cs (op, (step P s op).2) = true
  · simp only [h₂, if_true] at hbm hbb
    refine Or.inl ⟨h₂, by omega, ?_⟩
    rw [← hb]
    exact hbb.symm
  simp only [h₂, if_false, Bool.false_eq_true] at hbm hbb hbh
  by_cases h₃ : isAcquire cs (op, (step P s op).2) = true
  · simp only [h₃, if_true] at hbb
    cases hbb
  simp only [h₃, if_false, Bool.false_eq_true] at hbm hbb hbh
  by_cases h₄ : isRelease cs (op, (step P s op).2) = true
  · simp only [h₄, if_true] at hbm hbb hbh
    have hle : ¬ (1 < refholderCount s cs) := by simpa using hbb.symm
    have hbridge : hasBridge s cs = true := by
      rcases hclaimed with h | h
      · exact absurd hbm (by omega)
      · rw [hb]
        exact h
    have hpos := hiff.mp hbridge
    exact Or.inr ⟨h₄, by omega, by omega⟩
  · simp only [h₄, if_false, Bool.false_eq_true] at hbm hbb
    rcases hclaimed with h | h
    · exact absurd hbm (by omega)
    · rw [← hbb] at hb
      rw [← hb] at h
      cases h

end SeamlessCore.BufferCache
