/-
  SeamlessCore.Cache.Eviction — one eviction pass and what it leaves.

  The pass drops the temprefs that have faded, then, above the soft cap, sheds
  unprotected entries by ascending score until the cap is reached.  Computing
  the interest of a tempref may raise: `fade_factor ** steps` overflows once
  a tempref has not been refreshed for long enough.  The pass is therefore
  written here a second time, with the exceptions of its float operations and
  with the entries it evicts; where nothing raises it is `runEvictionOnce`.

  Main results:
    * `evictLog_eq`, `evictionRun_eq` — the pass with exceptions and evicted
      entries against the pass of the cache model;
    * `evictLoop_usage` — the running total is the memory in use;
    * `returned_post` — a pass that returns meets its postcondition;
    * `eviction_postcondition` — a pass meets its postcondition exactly if no
      tempref it looks at raises.

  Source: `seamless/caching/buffer_cache.py`.
-/
import SeamlessCore.Lib.Shed
import SeamlessCore.Cache.Publication

namespace SeamlessCore

/-! ## §1. Sums over a dictionary. -/

section
variable {K V : Type} [DecidableEq K]

/-- The sum of a quantity of the values -/
def sumValues (g : V → Nat) (d : Dict K V) : Nat := (d.items.map fun x => g x.2).sum

omit [DecidableEq K] in
theorem sumValues_eq (g : V → Nat) (d : Dict K V) :
    sumValues g d = (d.entries.map fun e => g e.2).sum := by
  unfold sumValues Dict.items
  rw [List.map_reverse, List.sum_reverse, List.map_map]
  rfl

theorem sumValues_erase (g : V → Nat) (d : Dict K V) {k : K} {v : V} (h : d.lookup k = some v) :
    sumValues g (d.erase k) + g v = sumValues g d := by
  have hlist : ∀ l : List (Sigma fun _ : K => V), l.dlookup k = some v →
      ((l.kerase k).map fun e => g e.2).sum + g v = (l.map fun e => g e.2).sum := by
    intro l
    induction l with
    | nil => intro hl; simp at hl
    | cons e l ih =>
      intro hl
      obtain ⟨a, w⟩ := e
      by_cases hka : k = a
      · subst hka
        rw [List.dlookup_cons_eq, Option.some.injEq] at hl
        subst hl
        have herase : List.kerase k (⟨k, w⟩ :: l) = l := List.kerase_cons_eq rfl
        rw [herase, List.map_cons, List.sum_cons, Nat.add_comm]
      · rw [List.dlookup_cons_ne _ _ hka] at hl
        rw [List.kerase_cons_ne hka, List.map_cons, List.map_cons, List.sum_cons, List.sum_cons]
        have hrest := ih hl
        omega
  rw [sumValues_eq, sumValues_eq]
  exact hlist d.entries h

theorem sumValues_set (g : V → Nat) (d : Dict K V) {k : K} {v : V} (v' : V) (h : d.lookup k = some v)
    (hg : g v' = g v) : sumValues g (d.set k v') = sumValues g d := by
  have hmem : k ∈ d := by
    rw [← AList.lookup_isSome, h]
    rfl
  have hlist : ∀ l : List (Sigma fun _ : K => V), l.dlookup k = some v →
      ((l.kreplace k v').map fun e => g e.2).sum = (l.map fun e => g e.2).sum := by
    intro l
    induction l with
    | nil => intro hl; simp at hl
    | cons e l ih =>
      intro hl
      obtain ⟨a, w⟩ := e
      by_cases hka : k = a
      · subst hka
        rw [List.dlookup_cons_eq, Option.some.injEq] at hl
        subst hl
        have hrep : List.kreplace k v' (⟨k, w⟩ :: l) = ⟨k, v'⟩ :: l := by
          refine List.lookmap_cons_some _ _ ?_
          simp
        rw [hrep, List.map_cons, List.map_cons, List.sum_cons, List.sum_cons, hg]
      · rw [List.dlookup_cons_ne _ _ hka] at hl
        have hrep : List.kreplace k v' (⟨a, w⟩ :: l) = ⟨a, w⟩ :: List.kreplace k v' l := by
          refine List.lookmap_cons_none _ _ ?_
          simp [hka]
        rw [hrep, List.map_cons, List.map_cons, List.sum_cons, List.sum_cons, ih hl]
  unfold Dict.set
  rw [if_pos hmem, sumValues_eq, sumValues_eq]
  exact hlist d.entries h

end

namespace BufferCache

variable {Checksum Buffer F : Type} [DecidableEq Checksum]

/-! ## §2. The pass with its exceptions. -/

/-- The float operations that raise instead of giving a number -/
structure FloatErrors (F : Type) where
  /-- `a / b` raises `ZeroDivisionError` -/
  div : F → F → Bool
  /-- `a ** b` raises `OverflowError` or `ZeroDivisionError` -/
  pow : F → F → Bool

/-- `TempRef.current_interest` raises at the clock reading `now` -/
def interestRaises (err : FloatErrors F) (f : FloatOps F) (t : TempRef F) (now : F) : Bool :=
  let elapsed := f.sub now t.lastRefreshed
  if f.le elapsed (f.ofInt 0) || f.le t.fadeInterval (f.ofInt 0) then false
  else
    let steps := f.div elapsed t.fadeInterval
    err.div elapsed t.fadeInterval || err.pow t.fadeFactor steps ||
      err.div t.interest (f.pow t.fadeFactor steps)

/-- `StrongEntry.interest` raises at the clock reading `now` -/
def entryRaises (err : FloatErrors F) (f : FloatOps F) (e : StrongEntry Buffer F) (now : F) :
    Bool :=
  match e.tempref with
  | none => false
  | some t => interestRaises err f t now

variable (P : CacheParams Checksum Buffer F)

/-- `_candidate_score` raises; `size_gb` is positive where it divides by it. -/
def scoreRaises (err : FloatErrors F) (r : EvictionReadings Checksum F) (cs : Checksum)
    (e : StrongEntry Buffer F) : Bool :=
  match e.size with
  | none => false
  | some n =>
    if n = 0 then false
    else
      let sizeGb := P.float.div (P.float.ofInt n) (P.float.ofInt (1024 ^ 3))
      if P.float.le sizeGb (P.float.ofInt 0) then false
      else if P.float.isInf (r.cost cs n) then false
      else entryRaises err P.float e (r.scoreClock cs)

/-- The first loop of `run_eviction_once`, and whether it runs to its end. -/
def expirePass (err : FloatErrors F) (r : EvictionReadings Checksum F) :
    List Checksum → BufferCache Checksum Buffer F → BufferCache Checksum Buffer F × Bool
  | [], s => (s, true)
  | cs :: rest, s =>
    match s.strongCache.lookup cs with
    | none => expirePass err r rest s
    | some e =>
      if entryRaises err P.float e (r.expiryClock cs) then (s, false)
      else expirePass err r rest (expireOne P r s cs)

/-- The second loop of `run_eviction_once`, with the entries it evicts. -/
def evictLog (r : EvictionReadings Checksum F) :
    Int → List (F × Checksum) → BufferCache Checksum Buffer F →
      Int × List Checksum × BufferCache Checksum Buffer F
  | current, [], s => (current, [], s)
  | current, (score, cs) :: rest, s =>
    if current ≤ P.softCap then (current, [], s)
    else if P.float.isInf score then evictLog r current rest s
    else
      match s.strongCache.lookup cs with
      | none => evictLog r current rest s
      | some e =>
        let s := demote P.float (s.setEntry cs { e with tempref := none }) cs (r.scoreClock cs)
        let (current, evicted, s) := evictLog r (current - (e.size.getD 0 : Nat)) rest s
        (current, cs :: evicted, s)

/-- How a pass ends -/
inductive EvictionResult (Checksum : Type) where
  | returned (before after : Int) (evicted : List Checksum)
  | raised
  deriving DecidableEq

/-- `run_eviction_once()`, with what it raises and what the second loop evicts -/
def evictionRun (err : FloatErrors F) (r : EvictionReadings Checksum F)
    (s : BufferCache Checksum Buffer F) :
    BufferCache Checksum Buffer F × EvictionResult Checksum :=
  match expirePass P err r s.strongCache.keyList s with
  | (s, false) => (s, .raised)
  | (s, true) =>
    let before := strongMemoryUsage s
    if before ≤ P.softCap then (s, .returned before before [])
    -- all scores are computed before the first eviction
    else if (s.strongCache.items.filter fun x => !evictionProtected x.2).any
        fun x => scoreRaises P err r x.1 x.2 then (s, .raised)
    else
      let (current, evicted, s) := evictLog P r before (candidates P r s) s
      (s, .returned before (max 0 current) evicted)

/-! ## §3. The pass against the one of the cache model. -/

/-- What the expiry of one tempref sees of the others is unchanged. -/
theorem expireOne_other (r : EvictionReadings Checksum F) (s : BufferCache Checksum Buffer F)
    {cs k : Checksum} (h : k ≠ cs) :
    (expireOne P r s cs).strongCache.lookup k = s.strongCache.lookup k := by
  rw [expireOne_lookup, if_neg h]

/-- The first loop runs to its end exactly if no tempref raises. -/
theorem expirePass_completes (err : FloatErrors F) (r : EvictionReadings Checksum F)
    (keys : List Checksum) : ∀ s : BufferCache Checksum Buffer F, keys.Nodup →
      ((expirePass P err r keys s).2 = true ↔
        ∀ cs ∈ keys, ∀ e, s.strongCache.lookup cs = some e →
          entryRaises err P.float e (r.expiryClock cs) = false) := by
  induction keys with
  | nil => intro s _; simp [expirePass]
  | cons k keys ih =>
    intro s hnodup
    obtain ⟨hk, hkeys⟩ := List.nodup_cons.mp hnodup
    unfold expirePass
    cases he : s.strongCache.lookup k with
    | none =>
      show (expirePass P err r keys s).2 = true ↔ _
      rw [ih s hkeys]
      constructor
      · intro h cs hcs e hlook
        rcases List.mem_cons.mp hcs with heq | hcs
        · rw [heq, he] at hlook
          cases hlook
        · exact h cs hcs e hlook
      · intro h cs hcs e hlook
        exact h cs (List.mem_cons_of_mem k hcs) e hlook
    | some e =>
      by_cases hraises : entryRaises err P.float e (r.expiryClock k) = true
      · simp only [hraises, if_true]
        constructor
        · intro h
          cases h
        · intro h
          have hno := h k List.mem_cons_self e he
          rw [hraises] at hno
          cases hno
      · simp only [hraises, Bool.false_eq_true, if_false]
        rw [ih (expireOne P r s k) hkeys]
        constructor
        · intro h cs hcs e' hlook
          rcases List.mem_cons.mp hcs with heq | hcs
          · rw [heq, he, Option.some.injEq] at hlook
            rw [heq, ← hlook]
            simpa using hraises
          · have hne : cs ≠ k := fun heq => hk (heq ▸ hcs)
            refine h cs hcs e' ?_
            rw [expireOne_other P r s hne, hlook]
        · intro h cs hcs e' hlook
          -- the other keys come later, and expiry has not touched them
          have hne : cs ≠ k := fun heq => hk (heq ▸ hcs)
          rw [expireOne_other P r s hne] at hlook
          exact h cs (List.mem_cons_of_mem k hcs) e' hlook

/-- A first loop that runs to its end is the one of the cache model. -/
theorem expirePass_state (err : FloatErrors F) (r : EvictionReadings Checksum F)
    (keys : List Checksum) : ∀ s : BufferCache Checksum Buffer F,
      (expirePass P err r keys s).2 = true →
        (expirePass P err r keys s).1 = keys.foldl (expireOne P r) s := by
  induction keys with
  | nil => intro s _; rfl
  | cons k keys ih =>
    intro s h
    unfold expirePass at h ⊢
    rw [List.foldl_cons]
    cases he : s.strongCache.lookup k with
    | none =>
      rw [he] at h
      have hsame : expireOne P r s k = s := by
        unfold expireOne
        rw [he]
      rw [hsame]
      exact ih s h
    | some e =>
      rw [he] at h
      by_cases hraises : entryRaises err P.float e (r.expiryClock k) = true
      · simp [hraises] at h
      · simp only [hraises, Bool.false_eq_true, if_false] at h ⊢
        exact ih _ h

/-- Dropping the tempref of an unprotected entry demotes it. -/
theorem demote_unprotected (f : FloatOps F) {s : BufferCache Checksum Buffer F} {cs : Checksum}
    {e : StrongEntry Buffer F} (he : s.strongCache.lookup cs = some e)
    (hfree : evictionProtected e = false) (now : F) :
    strongMemoryUsage (demote f (s.setEntry cs { e with tempref := none }) cs now) +
      e.size.getD 0 = strongMemoryUsage s := by
  have hlook : (s.setEntry cs { e with tempref := none }).strongCache.lookup cs =
      some { e with tempref := none } := Dict.lookup_set_self _ _ _
  have hcan : canDemote f { e with tempref := none } now = true := by
    unfold evictionProtected at hfree
    obtain ⟨hrefs, hbridge⟩ := Bool.or_eq_false_iff.mp hfree
    have hrefs' : e.manualRefs = 0 := by simpa using hrefs
    simp [canDemote, hasLiveTempref, hrefs', hbridge]
  have hset := sumValues_set (fun e : StrongEntry Buffer F => e.size.getD 0) s.strongCache
    { e with tempref := none } he rfl
  have herase := sumValues_erase (fun e : StrongEntry Buffer F => e.size.getD 0)
    (s.strongCache.set cs { e with tempref := none }) hlook
  unfold demote
  rw [hlook]
  simp only [hcan, if_true]
  show sumValues (fun e : StrongEntry Buffer F => e.size.getD 0)
    ((s.strongCache.set cs { e with tempref := none }).erase cs) + _ =
      sumValues (fun e : StrongEntry Buffer F => e.size.getD 0) s.strongCache
  rw [← hset, ← herase]

/-- Candidates of a state: distinct checksums with unprotected entries -/
structure Candidates (s : BufferCache Checksum Buffer F) (cands : List (F × Checksum)) : Prop where
  nodup : (cands.map Prod.snd).Nodup
  free : ∀ c ∈ cands, ∃ e, s.strongCache.lookup c.2 = some e ∧ evictionProtected e = false

/-- After the first candidate is evicted, the rest are candidates still. -/
theorem Candidates.next (f : FloatOps F) {s : BufferCache Checksum Buffer F} {c : F × Checksum}
    {rest : List (F × Checksum)} (h : Candidates s (c :: rest)) (e : StrongEntry Buffer F)
    (now : F) :
    (∀ d ∈ rest, (demote f (s.setEntry c.2 { e with tempref := none }) c.2 now).strongCache.lookup
        d.2 = s.strongCache.lookup d.2) ∧
      Candidates (demote f (s.setEntry c.2 { e with tempref := none }) c.2 now) rest := by
  obtain ⟨hc, hrest⟩ := List.nodup_cons.mp h.nodup
  have hother : ∀ d ∈ rest, (demote f (s.setEntry c.2 { e with tempref := none }) c.2
      now).strongCache.lookup d.2 = s.strongCache.lookup d.2 := by
    intro d hd
    have hne : d.2 ≠ c.2 := fun heq => hc (heq ▸ List.mem_map_of_mem hd)
    rw [dropTempref_lookup, if_neg hne]
  refine ⟨hother, hrest, fun d hd => ?_⟩
  rw [hother d hd]
  exact h.free d (List.mem_cons_of_mem c hd)

theorem Candidates.tail {s : BufferCache Checksum Buffer F} {c : F × Checksum}
    {rest : List (F × Checksum)} (h : Candidates s (c :: rest)) : Candidates s rest :=
  ⟨(List.nodup_cons.mp h.nodup).2, fun d hd => h.free d (List.mem_cons_of_mem c hd)⟩

/-- The second loop with its log is the one of the cache model, and logs the
victims. -/
theorem evictLog_eq (r : EvictionReadings Checksum F) (cands : List (F × Checksum)) :
    ∀ (current : Int) (s : BufferCache Checksum Buffer F), Candidates s cands →
      evictLog P r current cands s = ((evictLoop P r current cands s).1,
        victims P s current cands, (evictLoop P r current cands s).2) := by
  induction cands with
  | nil => intro current s _; rfl
  | cons c rest ih =>
    intro current s h
    obtain ⟨score, cs⟩ := c
    obtain ⟨e, he, -⟩ := h.free (score, cs) List.mem_cons_self
    unfold evictLog evictLoop victims
    by_cases hcap : current ≤ P.softCap
    · simp only [if_pos hcap]
    · simp only [if_neg hcap]
      by_cases hinf : P.float.isInf score = true
      · simp only [if_pos hinf]
        exact ih current s h.tail
      · have hmem : cs ∈ s.strongCache := by
          rw [← AList.lookup_isSome, he]
          rfl
        obtain ⟨hother, hnext⟩ := h.next P.float e (r.scoreClock cs)
        simp only [if_neg hinf, if_pos hmem, he]
        rw [ih _ _ hnext, victims_congr P rest _ hother]
        rfl

/-- The running total of the second loop is the memory in use. -/
theorem evictLoop_usage (r : EvictionReadings Checksum F) (cands : List (F × Checksum)) :
    ∀ s : BufferCache Checksum Buffer F, Candidates s cands →
      (evictLoop P r (strongMemoryUsage s) cands s).1 =
        strongMemoryUsage (evictLoop P r (strongMemoryUsage s) cands s).2 := by
  induction cands with
  | nil => intro s _; rfl
  | cons c rest ih =>
    intro s h
    obtain ⟨score, cs⟩ := c
    obtain ⟨e, he, hfree⟩ := h.free (score, cs) List.mem_cons_self
    unfold evictLoop
    split
    · rfl
    · split
      · exact ih s h.tail
      · obtain ⟨-, hnext⟩ := h.next P.float e (r.scoreClock cs)
        have husage : strongMemoryUsage (demote P.float (s.setEntry cs { e with tempref := none })
            cs (r.scoreClock cs)) + e.size.getD 0 = strongMemoryUsage s :=
          demote_unprotected P.float he hfree (r.scoreClock cs)
        have htotal : (strongMemoryUsage s : Int) - (e.size.getD 0 : Nat) =
            strongMemoryUsage (demote P.float (s.setEntry cs { e with tempref := none }) cs
              (r.scoreClock cs)) := by omega
        simp only [he]
        rw [htotal]
        exact ih _ hnext

theorem candidates_spec (r : EvictionReadings Checksum F) (s : BufferCache Checksum Buffer F)
    (c : F × Checksum) :
    c ∈ candidates P r s ↔ ∃ e, s.strongCache.lookup c.2 = some e ∧
      evictionProtected e = false ∧ candidateScore P r c.2 e = c.1 := by
  unfold candidates
  rw [List.mem_mergeSort, List.mem_map]
  constructor
  · rintro ⟨⟨k, e⟩, hmem, hc⟩
    obtain ⟨hitem, hfree⟩ := List.mem_filter.mp hmem
    rw [← hc]
    exact ⟨e, Dict.mem_items.mp hitem, by simpa using hfree, rfl⟩
  · rintro ⟨e, he, hfree, hscore⟩
    refine ⟨(c.2, e), List.mem_filter.mpr ⟨Dict.mem_items.mpr he, by simpa using hfree⟩, ?_⟩
    show (candidateScore P r c.2 e, c.2) = c
    rw [hscore]

theorem candidates_candidates (r : EvictionReadings Checksum F)
    (s : BufferCache Checksum Buffer F) : Candidates s (candidates P r s) where
  nodup := candidates_nodup P r s
  free c hc := by
    obtain ⟨e, he, hfree, -⟩ := (candidates_spec P r s c).mp hc
    exact ⟨e, he, hfree⟩

/-- The victims of the second loop, as load that is shed. -/
theorem victims_shed (s : BufferCache Checksum Buffer F) (cands : List (F × Checksum)) :
    ∀ current : Int, Candidates s cands →
      victims P s current cands =
        (Shed.shed P.softCap (fun c => entryBytes (s.strongCache.lookup c.2))
          (fun c => P.float.isInf c.1) current cands).map Prod.snd := by
  induction cands with
  | nil => intro current _; rfl
  | cons c rest ih =>
    intro current h
    obtain ⟨score, cs⟩ := c
    obtain ⟨e, he, -⟩ := h.free (score, cs) List.mem_cons_self
    have hmem : cs ∈ s.strongCache := by
      rw [← AList.lookup_isSome, he]
      rfl
    unfold victims Shed.shed
    by_cases hcap : current ≤ P.softCap
    · rw [if_pos hcap, if_pos hcap]
      rfl
    · rw [if_neg hcap, if_neg hcap]
      by_cases hinf : P.float.isInf score = true
      · rw [if_pos hinf, if_pos hinf]
        exact ih current h.tail
      · rw [if_neg hinf, if_neg hinf, if_pos hmem, List.map_cons, ih _ h.tail]

/-! ## §4. The order of scores. -/

omit [DecidableEq Checksum] in
/-- Comparisons of floats: among numbers they are a total order. -/
structure FloatOrder (f : FloatOps F) : Prop where
  lt_iff : ∀ a b, f.le a a = true → f.le b b = true → f.lt a b = !f.le b a
  trans : ∀ a b c, f.le a b = true → f.le b c = true → f.le a c = true
  total : ∀ a b, f.le a a = true → f.le b b = true → f.le a b = true ∨ f.le b a = true

omit [DecidableEq Checksum] in
/-- Sorting by score puts numbers in ascending order. -/
theorem pairwise_scores {f : FloatOps F} (horder : FloatOrder f) (l : List (F × Checksum))
    (hnumbers : ∀ c ∈ l, f.le c.1 c.1 = true) :
    (l.mergeSort fun a b => !f.lt b.1 a.1).Pairwise fun a b => f.lt b.1 a.1 = false := by
  -- the scores are compared as numbers, which needs the entries to be in the list
  have hmap := List.map_mergeSort (r := fun a b : {c // c ∈ l} => !f.lt b.1.1 a.1.1)
    (s := fun a b : F × Checksum => !f.lt b.1 a.1) (f := Subtype.val) (l := l.attach)
    (fun _ _ _ _ => rfl)
  rw [List.attach_map_subtype_val] at hmap
  rw [← hmap, List.pairwise_map]
  have hle : ∀ a b : {c // c ∈ l}, (!f.lt b.1.1 a.1.1) = f.le a.1.1 b.1.1 := by
    intro a b
    rw [horder.lt_iff _ _ (hnumbers b.1 b.2) (hnumbers a.1 a.2), Bool.not_not]
  have htrans : ∀ a b c : {c // c ∈ l}, (!f.lt b.1.1 a.1.1) = true → (!f.lt c.1.1 b.1.1) = true →
      (!f.lt c.1.1 a.1.1) = true := by
    intro a b c hab hbc
    rw [hle] at hab hbc ⊢
    exact horder.trans _ _ _ hab hbc
  have htotal : ∀ a b : {c // c ∈ l}, ((!f.lt b.1.1 a.1.1) || (!f.lt a.1.1 b.1.1)) = true := by
    intro a b
    rw [hle, hle, Bool.or_eq_true]
    exact horder.total _ _ (hnumbers a.1 a.2) (hnumbers b.1 b.2)
  refine (List.pairwise_mergeSort htrans htotal l.attach).imp ?_
  intro a b h
  simpa using h

/-! ## §5. The postcondition. -/

/-- The score of the entry of a checksum -/
def scoreAt (r : EvictionReadings Checksum F) (s : BufferCache Checksum Buffer F)
    (cs : Checksum) : F :=
  match s.strongCache.lookup cs with
  | none => P.float.inf
  | some e => candidateScore P r cs e

/-- What a pass from `s` promises of its result: the sizes it reports, the
entries it evicts and their order, and where it stops.  The scores are those
after the expiry of the temprefs. -/
structure EvictionPost (r : EvictionReadings Checksum F) (s s' : BufferCache Checksum Buffer F)
    (before after : Int) (evicted : List Checksum) : Prop where
  reported_before : before = strongMemoryUsage (expireTemprefs P r s)
  reported : after = strongMemoryUsage s'
  entries : ∀ k, s'.strongCache.lookup k =
    if k ∈ evicted then none else expired P r k (s.strongCache.lookup k)
  kept : ∀ k e, s.strongCache.lookup k = some e → evictionProtected e = true →
    ∃ e', s'.strongCache.lookup k = some e' ∧ e'.buffer = e.buffer ∧ e'.manualRefs = e.manualRefs ∧
      e'.hasRefholderBridge = e.hasRefholderBridge
  finite : ∀ k ∈ evicted, P.float.isInf (scoreAt P r (expireTemprefs P r s) k) = false
  ascending : evicted.Pairwise fun k k' =>
    P.float.lt (scoreAt P r (expireTemprefs P r s) k') (scoreAt P r (expireTemprefs P r s) k) = false
  cheapest : ∀ k ∈ evicted, ∀ k' e', s'.strongCache.lookup k' = some e' →
    evictionProtected e' = false → P.float.isInf (candidateScore P r k' e') = false →
      P.float.lt (candidateScore P r k' e') (scoreAt P r (expireTemprefs P r s) k) = false
  stopped : ∀ first k later, evicted = first ++ k :: later → (P.softCap : Int) <
    before - ((first.map fun k => entryBytes ((expireTemprefs P r s).strongCache.lookup k)).sum : Nat)
  exhausted : (P.softCap : Int) < after → ∀ k e, s'.strongCache.lookup k = some e →
    evictionProtected e = false → P.float.isInf (candidateScore P r k e) = true

/-- A pass returns and keeps its promise. -/
def MeetsPost (err : FloatErrors F) (r : EvictionReadings Checksum F)
    (s : BufferCache Checksum Buffer F) : Prop :=
  match evictionRun P err r s with
  | (s', .returned before after evicted) => EvictionPost P r s s' before after evicted
  | (_, .raised) => False

/-- A pass looks at a tempref whose fade raises: at any tempref when it looks
for expired ones, and above the cap at those of the entries it scores. -/
def passRaises (err : FloatErrors F) (r : EvictionReadings Checksum F)
    (s : BufferCache Checksum Buffer F) : Bool :=
  (s.strongCache.items.any fun x => entryRaises err P.float x.2 (r.expiryClock x.1)) ||
    decide (P.softCap < strongMemoryUsage (expireTemprefs P r s)) &&
      ((expireTemprefs P r s).strongCache.items.filter fun x => !evictionProtected x.2).any
        fun x => scoreRaises P err r x.1 x.2

theorem expirePass_raises (err : FloatErrors F) (r : EvictionReadings Checksum F)
    (s : BufferCache Checksum Buffer F) :
    (expirePass P err r s.strongCache.keyList s).2 =
      !(s.strongCache.items.any fun x => entryRaises err P.float x.2 (r.expiryClock x.1)) := by
  rw [Bool.eq_iff_iff, expirePass_completes P err r _ s (Dict.nodup_keyList _), Bool.not_eq_true',
    List.any_eq_false]
  constructor
  · intro h x hx
    have hlook : s.strongCache.lookup x.1 = some x.2 := Dict.mem_items.mp hx
    have hmem : x.1 ∈ s.strongCache.keyList := by
      rw [Dict.mem_keyList, ← AList.lookup_isSome, hlook]
      rfl
    simp [h x.1 hmem x.2 hlook]
  · intro h k _ e he
    have hno := h (k, e) (Dict.mem_items.mpr he)
    simpa using hno

/-- The pass with its exceptions: it raises where a fade does, and is the pass
of the cache model elsewhere. -/
theorem evictionRun_eq (err : FloatErrors F) (r : EvictionReadings Checksum F)
    (s : BufferCache Checksum Buffer F) :
    (passRaises P err r s = true → ∃ s', evictionRun P err r s = (s', .raised)) ∧
    (passRaises P err r s = false →
      evictionRun P err r s =
        ((runEvictionOnce P r s).1, .returned (strongMemoryUsage (expireTemprefs P r s))
          (strongMemoryUsage (runEvictionOnce P r s).1) (evictionVictims P r s))) := by
  have hraises := expirePass_raises P err r s
  have hstate := expirePass_state P err r s.strongCache.keyList s
  unfold evictionRun passRaises
  cases hpass : expirePass P err r s.strongCache.keyList s with
  | mk s₁ done =>
    rw [hpass] at hraises hstate
    cases done with
    | false =>
      have hany : (s.strongCache.items.any fun x =>
          entryRaises err P.float x.2 (r.expiryClock x.1)) = true := by
        simpa using hraises.symm
      rw [hany]
      exact ⟨fun _ => ⟨s₁, rfl⟩, fun h => by simp at h⟩
    | true =>
      have hany : (s.strongCache.items.any fun x =>
          entryRaises err P.float x.2 (r.expiryClock x.1)) = false := by
        simpa using hraises.symm
      have hs₁ : s₁ = expireTemprefs P r s := hstate rfl
      rw [hany, hs₁, Bool.false_or]
      unfold runEvictionOnce evictionVictims
      by_cases hcap : strongMemoryUsage (expireTemprefs P r s) ≤ P.softCap
      · have hno : ¬ P.softCap < strongMemoryUsage (expireTemprefs P r s) := not_lt.mpr hcap
        simp [hcap, hno]
      · have hyes : P.softCap < strongMemoryUsage (expireTemprefs P r s) := not_le.mp hcap
        have hcands := candidates_candidates P r (expireTemprefs P r s)
        have husage := evictLoop_usage P r _ (expireTemprefs P r s) hcands
        simp only [hcap, if_false, hyes, decide_true, Bool.true_and]
        -- above the cap every candidate is scored before the first is evicted
        by_cases hscores : (((expireTemprefs P r s).strongCache.items.filter
            fun x => !evictionProtected x.2).any fun x => scoreRaises P err r x.1 x.2) = true
        · rw [if_pos hscores]
          refine ⟨fun _ => ⟨_, rfl⟩, fun h => ?_⟩
          rw [hscores] at h
          cases h
        · rw [if_neg hscores, evictLog_eq P r _ _ _ hcands, husage]
          refine ⟨fun h => absurd h hscores, fun _ => ?_⟩
          have hmax : max 0 ((strongMemoryUsage (evictLoop P r
              (strongMemoryUsage (expireTemprefs P r s)) (candidates P r (expireTemprefs P r s))
              (expireTemprefs P r s)).2 : Nat) : Int) = _ :=
            Int.max_eq_right (Int.natCast_nonneg _)
          simp only [hmax]

omit [DecidableEq Checksum] in
/-- A protected entry survives the expiry of its tempref. -/
theorem expired_protected (r : EvictionReadings Checksum F) (cs : Checksum)
    {e : StrongEntry Buffer F} (hprot : evictionProtected e = true) :
    ∃ e', expired P r cs (some e) = some e' ∧ e'.buffer = e.buffer ∧
      e'.manualRefs = e.manualRefs ∧ e'.hasRefholderBridge = e.hasRefholderBridge := by
  unfold expired
  rw [Option.bind_some]
  cases ht : e.tempref with
  | none => exact ⟨e, rfl, rfl, rfl, rfl⟩
  | some t =>
    simp only [hprot, if_true]
    split
    · exact ⟨_, rfl, rfl, rfl, rfl⟩
    · exact ⟨e, rfl, rfl, rfl, rfl⟩

/-- A protected entry is no victim. -/
theorem protected_not_victim (r : EvictionReadings Checksum F) {s : BufferCache Checksum Buffer F}
    {k : Checksum} {e : StrongEntry Buffer F}
    (he : (expireTemprefs P r s).strongCache.lookup k = some e)
    (hprot : evictionProtected e = true) : k ∉ evictionVictims P r s := by
  intro hk
  unfold evictionVictims at hk
  simp only at hk
  split at hk
  · cases hk
  · obtain ⟨c, hc, hck⟩ := List.mem_map.mp (victims_subset P _ _ _ k hk)
    have hfree := candidates_free P r _ c hc e (by rw [hck, he])
    rw [hprot] at hfree
    cases hfree

/-- What the pass sheds, with scores. -/
theorem evictionVictims_shed (r : EvictionReadings Checksum F)
    (s : BufferCache Checksum Buffer F)
    (hcap : P.softCap < strongMemoryUsage (expireTemprefs P r s)) :
    evictionVictims P r s = (Shed.shed P.softCap
      (fun c => entryBytes ((expireTemprefs P r s).strongCache.lookup c.2))
      (fun c => P.float.isInf c.1) (strongMemoryUsage (expireTemprefs P r s))
      (candidates P r (expireTemprefs P r s))).map Prod.snd := by
  unfold evictionVictims
  simp only
  rw [if_neg (not_le.mpr hcap)]
  exact victims_shed P _ _ _ (candidates_candidates P r _)

theorem scoreAt_candidate (r : EvictionReadings Checksum F) {s : BufferCache Checksum Buffer F}
    {c : F × Checksum} (hc : c ∈ candidates P r s) : scoreAt P r s c.2 = c.1 := by
  obtain ⟨e, he, -, hscore⟩ := (candidates_spec P r s c).mp hc
  unfold scoreAt
  rw [he]
  exact hscore

/-- The running total of the second loop is the first one less the victims. -/
theorem evictLoop_total (r : EvictionReadings Checksum F) (cands : List (F × Checksum)) :
    ∀ (current : Int) (s : BufferCache Checksum Buffer F), Candidates s cands →
      (evictLoop P r current cands s).1 = current - (((victims P s current cands).map fun k =>
        entryBytes (s.strongCache.lookup k)).sum : Nat) := by
  induction cands with
  | nil => intro current s _; simp [evictLoop, victims]
  | cons c rest ih =>
    intro current s h
    obtain ⟨score, cs⟩ := c
    obtain ⟨e, he, -⟩ := h.free (score, cs) List.mem_cons_self
    have hmem : cs ∈ s.strongCache := by
      rw [← AList.lookup_isSome, he]
      rfl
    unfold evictLoop victims
    by_cases hcap : current ≤ P.softCap
    · simp [hcap]
    · by_cases hinf : P.float.isInf score = true
      · simp only [if_neg hcap, if_pos hinf]
        exact ih current s h.tail
      · obtain ⟨hother, hnext⟩ := h.next P.float e (r.scoreClock cs)
        have hbytes : entryBytes (some e) = e.size.getD 0 := rfl
        simp only [if_neg hcap, if_neg hinf, he, if_pos hmem]
        rw [ih _ _ hnext, victims_congr P rest _ hother, List.map_cons, List.sum_cons, hbytes]
        -- the bytes of the other victims are those they had before
        have hsame : (victims P s (current - (e.size.getD 0 : Nat)) rest).map (fun k => entryBytes
            ((demote P.float (s.setEntry cs { e with tempref := none }) cs
              (r.scoreClock cs)).strongCache.lookup k)) =
            (victims P s (current - (e.size.getD 0 : Nat)) rest).map fun k =>
              entryBytes (s.strongCache.lookup k) := by
          apply List.map_congr_left
          intro k hk
          obtain ⟨d, hd, hdk⟩ := List.mem_map.mp (victims_subset P s rest _ k hk)
          rw [← hdk, hother d hd]
        rw [hsame, he, hbytes]
        push_cast
        omega

/-- The memory in use after the pass is that of before less the evicted. -/
theorem usage_after (r : EvictionReadings Checksum F) (s : BufferCache Checksum Buffer F) :
    (strongMemoryUsage (runEvictionOnce P r s).1 : Int) =
      strongMemoryUsage (expireTemprefs P r s) - (((evictionVictims P r s).map fun k =>
        entryBytes ((expireTemprefs P r s).strongCache.lookup k)).sum : Nat) := by
  unfold runEvictionOnce evictionVictims
  by_cases hcap : strongMemoryUsage (expireTemprefs P r s) ≤ P.softCap
  · simp [hcap]
  · simp only [hcap, if_false]
    have hcands := candidates_candidates P r (expireTemprefs P r s)
    rw [← evictLoop_usage P r _ _ hcands]
    exact evictLoop_total P r _ _ _ hcands

/-- An unprotected entry that the pass leaves was a candidate, and no victim. -/
theorem remaining_candidate (r : EvictionReadings Checksum F) {s : BufferCache Checksum Buffer F}
    {k : Checksum} {e : StrongEntry Buffer F}
    (he : (runEvictionOnce P r s).1.strongCache.lookup k = some e)
    (hfree : evictionProtected e = false) :
    k ∉ evictionVictims P r s ∧
      (candidateScore P r k e, k) ∈ candidates P r (expireTemprefs P r s) := by
  rw [runEvictionOnce_lookup] at he
  by_cases hk : k ∈ evictionVictims P r s
  · rw [if_pos hk] at he
    cases he
  · rw [if_neg hk, ← expireTemprefs_lookup] at he
    exact ⟨hk, (candidates_spec P r _ _).mpr ⟨e, he, hfree, rfl⟩⟩

/-- A pass that returns keeps its promise, where every score is a number. -/
theorem returned_post (horder : FloatOrder P.float) (r : EvictionReadings Checksum F)
    (s : BufferCache Checksum Buffer F)
    (hnumbers : ∀ c ∈ candidates P r (expireTemprefs P r s), P.float.le c.1 c.1 = true) :
    EvictionPost P r s (runEvictionOnce P r s).1 (strongMemoryUsage (expireTemprefs P r s))
      (strongMemoryUsage (runEvictionOnce P r s).1) (evictionVictims P r s) := by
  set cands := candidates P r (expireTemprefs P r s) with hcands
  set size := fun c : F × Checksum => entryBytes ((expireTemprefs P r s).strongCache.lookup c.2)
  set skip := fun c : F × Checksum => P.float.isInf c.1
  set total : Int := ((strongMemoryUsage (expireTemprefs P r s) : Nat) : Int) with htotal
  -- the victims with their scores; below the cap there are none
  have hvictims : evictionVictims P r s = [] ∧ total ≤ P.softCap ∨
      evictionVictims P r s = (Shed.shed P.softCap size skip total cands).map Prod.snd := by
    by_cases hcap : P.softCap < strongMemoryUsage (expireTemprefs P r s)
    · exact Or.inr (evictionVictims_shed P r s hcap)
    · have hle := not_lt.mp hcap
      refine Or.inl ⟨?_, by omega⟩
      unfold evictionVictims
      simp [hle]
  have hsorted : cands.Pairwise fun a b => P.float.lt b.1 a.1 = false := by
    rw [hcands]
    refine pairwise_scores horder _ fun c hc => hnumbers c ?_
    rw [hcands]
    unfold candidates
    rw [List.mem_mergeSort]
    exact hc
  have hscore : ∀ c ∈ cands, scoreAt P r (expireTemprefs P r s) c.2 = c.1 :=
    fun c hc => scoreAt_candidate P r hc
  have hsub : (Shed.shed P.softCap size skip total cands).Sublist cands :=
    Shed.shed_sublist _ _ _ cands total
  refine ⟨rfl, rfl, runEvictionOnce_lookup P r s, ?_, ?_, ?_, ?_, ?_, ?_⟩
  · -- protected entries stay
    intro k e he hprot
    obtain ⟨e', he', hbuffer, hrefs, hbridge⟩ := expired_protected P r k hprot
    have hlook : (expireTemprefs P r s).strongCache.lookup k = some e' := by
      rw [expireTemprefs_lookup, he, he']
    have hprot' : evictionProtected e' = true := by
      unfold evictionProtected at hprot ⊢
      rw [hrefs, hbridge, hprot]
    refine ⟨e', ?_, hbuffer, hrefs, hbridge⟩
    rw [runEvictionOnce_lookup, if_neg (protected_not_victim P r hlook hprot'), he, he']
  · intro k hk
    rcases hvictims with ⟨hnil, -⟩ | hshed
    · rw [hnil] at hk
      cases hk
    · rw [hshed] at hk
      obtain ⟨c, hc, hck⟩ := List.mem_map.mp hk
      rw [← hck, hscore c (hsub.subset hc)]
      exact Shed.shed_taken _ _ _ cands total c hc
  · rcases hvictims with ⟨hnil, -⟩ | hshed
    · rw [hnil]
      exact List.Pairwise.nil
    · rw [hshed, List.pairwise_map]
      refine (hsorted.sublist hsub).imp_of_mem ?_
      intro a b ha hb hab
      rw [hscore a (hsub.subset ha), hscore b (hsub.subset hb)]
      exact hab
  · intro k hk k' e' he' hfree hfinite
    rcases hvictims with ⟨hnil, -⟩ | hshed
    · rw [hnil] at hk
      cases hk
    · obtain ⟨hleft, hmem⟩ := remaining_candidate P r he' hfree
      rw [hshed] at hk hleft
      obtain ⟨c, hc, hck⟩ := List.mem_map.mp hk
      rw [← hck, hscore c (hsub.subset hc)]
      refine Shed.shed_first _ _ _ cands hsorted total c hc _ hmem hfinite fun hin => hleft ?_
      exact List.mem_map.mpr ⟨_, hin, rfl⟩
  · intro first k later heq
    rcases hvictims with ⟨hnil, -⟩ | hshed
    · rw [hnil] at heq
      simp at heq
    · rw [hshed] at heq
      obtain ⟨firsts, rest, hsplit, hfirsts, hrest⟩ := List.map_eq_append_iff.mp heq
      obtain ⟨c, later', hrest', -, -⟩ := List.map_eq_cons_iff.mp hrest
      rw [hrest'] at hsplit
      have hstop := Shed.shed_stop _ _ _ cands total firsts later' c hsplit
      rw [← hfirsts, List.map_map]
      exact hstop
  · intro habove k e he hfree
    obtain ⟨hleft, hmem⟩ := remaining_candidate P r he hfree
    rw [usage_after] at habove
    rcases hvictims with ⟨hnil, hcap⟩ | hshed
    · rw [hnil] at habove
      simp only [List.map_nil, List.sum_nil] at habove
      omega
    · by_contra hfinite
      have hskip : skip (candidateScore P r k e, k) = false := by simpa using hfinite
      rw [hshed, List.map_map] at habove
      rw [hshed] at hleft
      have hall := Shed.shed_all P.softCap size skip cands total habove _ hmem hskip
      exact hleft (List.mem_map.mpr ⟨_, hall, rfl⟩)

/-- A pass keeps its promise exactly if no tempref that it looks at raises. -/
theorem eviction_postcondition (horder : FloatOrder P.float) (err : FloatErrors F)
    (r : EvictionReadings Checksum F) (s : BufferCache Checksum Buffer F)
    (hnumbers : ∀ c ∈ candidates P r (expireTemprefs P r s), P.float.le c.1 c.1 = true) :
    MeetsPost P err r s ↔ passRaises P err r s = false := by
  obtain ⟨hraises, hreturns⟩ := evictionRun_eq P err r s
  unfold MeetsPost
  constructor
  · intro h
    by_contra hpass
    obtain ⟨s', hs'⟩ := hraises (by simpa using hpass)
    rw [hs'] at h
    exact h
  · intro h
    rw [hreturns h]
    exact returned_post P horder r s hnumbers

/-! ### Small caches. -/

/-- Rationals for floats, with powers to whole exponents -/
def ratOps : FloatOps ℚ where
  ofInt n := n
  add := (· + ·)
  sub := (· - ·)
  mul := (· * ·)
  div := (· / ·)
  pow a b := a ^ b.num.toNat
  lt a b := decide (a < b)
  le a b := decide (a ≤ b)
  isInf _ := false
  inf := 0

theorem ratOps_order : FloatOrder ratOps where
  lt_iff a b _ _ := by
    show decide (a < b) = !decide (b ≤ a)
    rw [← decide_not, decide_eq_decide]
    exact not_le.symm
  trans a b c hab hbc := by
    simp only [ratOps, decide_eq_true_eq] at hab hbc ⊢
    exact hab.trans hbc
  total a b _ _ := by
    simp only [ratOps, decide_eq_true_eq]
    exact le_total a b

/-- A power raises from `2 ** 1024` on. -/
def ratErrors : FloatErrors ℚ where
  div _ b := decide (b = 0)
  pow a b := decide (2 ^ 1024 ≤ a ^ b.num.toNat)

/-- A cache of numbers, each its own checksum, with a cap of 100 bytes -/
def rationalCache : CacheParams Nat Nat ℚ where
  checksum := id
  contentLength := id
  lengthAttr _ := none
  float := ratOps
  softCap := 100

/-- Two temprefs of the default parameters, set at time 0 -/
def twoTemprefs : BufferCache Nat Nat ℚ :=
  after rationalCache [.register 1 1 (some 80), .register 2 2 (some 60),
    .tempref 1 none 128 2 2 0, .tempref 2 none 128 2 2 0]

/-- A pass at a time, with the same cost for every buffer -/
def passAt (now : ℚ) : EvictionReadings Nat ℚ := ⟨fun _ => now, fun _ => now, fun _ _ => 1⟩

/-- Two seconds later the pass returns. -/
theorem eviction_postcondition_two :
    MeetsPost rationalCache ratErrors (passAt 2) twoTemprefs := by
  refine (eviction_postcondition rationalCache ratOps_order ratErrors (passAt 2) twoTemprefs
    ?_).mpr (by decide +kernel)
  intro c _
  show decide (c.1 ≤ c.1) = true
  simp

/-- After forty minutes the first tempref overflows: the pass raises, and
evicts nothing. -/
theorem eviction_raises :
    ¬ MeetsPost rationalCache ratErrors (passAt 2400) twoTemprefs := by
  have hraised : (evictionRun rationalCache ratErrors (passAt 2400) twoTemprefs).2 = .raised := by
    decide +kernel
  intro h
  unfold MeetsPost at h
  cases hrun : evictionRun rationalCache ratErrors (passAt 2400) twoTemprefs with
  | mk s' result =>
    rw [hrun] at h hraised
    simp only at hraised
    rw [hraised] at h
    exact h

end BufferCache

end SeamlessCore
