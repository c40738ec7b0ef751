/-
  SeamlessCore.Cache.Registry — counts, reverse sets and marks over every run.

  Registration attaches an edge for every listed dependency, and marking dirty
  follows the reverse sets.  Both ends are reached with the fuel they are given,
  and what the maps hold afterwards is again what the graph says.

  Main results:
    * `attachAll_eq` — the maps after a registration;
    * `markDirty_spec` — everything that leads to the checksum is marked;
    * `registered_consistent`, `leaving_consistent` — the maps stay consistent
      when a checksum is registered, and when its last interest goes.
-/
import SeamlessCore.Cache.Release

namespace SeamlessCore.EvictionCost

open DepGraph Relation

variable {K : Type} [DecidableEq K]

namespace CostModule

variable {s t : CostModule K} {c d : K}

/-! ## §1. Marking dirty. -/

/-- The same module, with fewer cached costs. -/
structure Trimmed (s t : CostModule K) : Prop where
  same : t = { s with costCache := t.costCache }
  cached : ∀ c, t.costCache c ≠ none → t.costCache c = s.costCache c

omit [DecidableEq K] in
theorem Trimmed.refl (s : CostModule K) : Trimmed s s := ⟨rfl, fun _ _ => rfl⟩

theorem Trimmed.after_dropCost (h : Trimmed (s.dropCost d) t) : Trimmed s t where
  same := h.same
  cached c hc := by
    have hsame := h.cached c hc
    rw [hsame] at hc
    have hsame : t.costCache c = Function.update s.costCache d none c := hsame
    have hc : Function.update s.costCache d none c ≠ none := hc
    rw [hsame]
    by_cases hcd : c = d
    · subst hcd
      rw [Function.update_self] at hc
      exact absurd rfl hc
    · exact Function.update_of_ne hcd _ _

/-- Closed under the reverse sets, and without a cached cost. -/
structure Marked (s t : CostModule K) (closed : K → Prop) : Prop where
  uncached : ∀ c, closed c → t.costCache c = none
  parents : ∀ c, closed c → ∀ p ∈ s.reverse c, closed p

/-- The loop marks what is pending and keeps what was seen marked. -/
theorem markLoop_spec (fuel : Nat) : ∀ (pending seen : List K) (s t : CostModule K),
    (∀ c ∈ seen, s.costCache c = none) →
    (∀ c ∈ seen, ∀ p ∈ s.reverse c, p ∈ seen ∨ p ∈ pending) →
    markLoop fuel pending seen s = some t →
    Trimmed s t ∧ ∃ closed, Marked s t closed ∧ ∀ c, c ∈ seen ∨ c ∈ pending → closed c := by
  induction fuel with
  | zero =>
    intro pending seen s t hcache hseen hrun
    cases pending with
    | nil =>
      obtain rfl : s = t := Option.some.inj hrun
      refine ⟨.refl s, (· ∈ seen), ⟨hcache, ?_⟩, ?_⟩
      · intro c hc p hp
        exact (hseen c hc p hp).resolve_right List.not_mem_nil
      · exact fun c hc => hc.resolve_right List.not_mem_nil
    | cons current pending => cases hrun
  | succ fuel ih =>
    intro pending seen s t hcache hseen hrun
    cases pending with
    | nil =>
      obtain rfl : s = t := Option.some.inj hrun
      refine ⟨.refl s, (· ∈ seen), ⟨hcache, ?_⟩, ?_⟩
      · intro c hc p hp
        exact (hseen c hc p hp).resolve_right List.not_mem_nil
      · exact fun c hc => hc.resolve_right List.not_mem_nil
    | cons current pending =>
      unfold markLoop at hrun
      by_cases hcurrent : current ∈ seen
      · rw [if_pos hcurrent] at hrun
        -- a checksum that was seen is only taken off the pending ones
        have hseen' : ∀ c ∈ seen, ∀ p ∈ s.reverse c, p ∈ seen ∨ p ∈ pending := by
          intro c hc p hp
          rcases hseen c hc p hp with hmem | hmem
          · exact .inl hmem
          · rcases List.mem_cons.mp hmem with heq | hmem
            · exact .inl (heq ▸ hcurrent)
            · exact .inr hmem
        obtain ⟨htrim, closed, hmarked, hall⟩ := ih pending seen s t hcache hseen' hrun
        refine ⟨htrim, closed, hmarked, fun c hc => ?_⟩
        rcases hc with hc | hc
        · exact hall c (.inl hc)
        · rcases List.mem_cons.mp hc with heq | hc
          · exact hall c (.inl (heq ▸ hcurrent))
          · exact hall c (.inr hc)
      · rw [if_neg hcurrent] at hrun
        -- a new one loses its cost, and its parents come before the pending ones
        have hcache' : ∀ c ∈ current :: seen, (s.dropCost current).costCache c = none := by
          intro c hc
          show Function.update s.costCache current none c = none
          by_cases hne : c = current
          · rw [hne, Function.update_self]
          · rw [Function.update_of_ne hne]
            exact hcache c ((List.mem_cons.mp hc).resolve_left hne)
        have hseen' : ∀ c ∈ current :: seen, ∀ p ∈ (s.dropCost current).reverse c,
            p ∈ current :: seen ∨ p ∈ s.reverse current ++ pending := by
          intro c hc p hp
          rcases List.mem_cons.mp hc with heq | hc
          · subst heq
            exact .inr (List.mem_append_left _ hp)
          · rcases hseen c hc p hp with hmem | hmem
            · exact .inl (List.mem_cons_of_mem _ hmem)
            · rcases List.mem_cons.mp hmem with heq | hmem
              · exact .inl (heq ▸ List.mem_cons_self)
              · exact .inr (List.mem_append_right _ hmem)
        obtain ⟨htrim, closed, hmarked, hall⟩ := ih _ _ _ t hcache' hseen' hrun
        refine ⟨htrim.after_dropCost, closed, ⟨hmarked.uncached, hmarked.parents⟩, fun c hc => ?_⟩
        rcases hc with hc | hc
        · exact hall c (.inl (List.mem_cons_of_mem _ hc))
        · rcases List.mem_cons.mp hc with heq | hc
          · exact hall c (.inl (heq ▸ List.mem_cons_self))
          · exact hall c (.inr (List.mem_append_right _ hc))

/-- The loop ends: every entry of a reverse set is pushed once at most. -/
theorem markLoop_ends (reverse : K → List K) (targets : Finset K)
    (htargets : ∀ d, d ∉ targets → reverse d = []) (fuel : Nat) :
    ∀ (pending seen : List K) (s : CostModule K), s.reverse = reverse →
      pending.length + ∑ d ∈ targets \ seen.toFinset, (reverse d).length ≤ fuel →
      (markLoop fuel pending seen s).isSome := by
  induction fuel with
  | zero =>
    intro pending seen s _ hfuel
    cases pending with
    | nil => rfl
    | cons current pending =>
      rw [List.length_cons] at hfuel
      omega
  | succ fuel ih =>
    intro pending seen s hreverse hfuel
    cases pending with
    | nil => rfl
    | cons current pending =>
      rw [List.length_cons] at hfuel
      unfold markLoop
      by_cases hcurrent : current ∈ seen
      · rw [if_pos hcurrent]
        -- the step takes a pending one and pushes nothing
        exact ih pending seen s hreverse (by omega)
      · rw [if_neg hcurrent]
        apply ih _ _ (s.dropCost current) hreverse
        rw [List.length_append, hreverse, List.toFinset_cons]
        by_cases htarget : current ∈ targets
        · -- the reverse set moves from the sum to the pending ones
          have hmem : current ∈ targets \ seen.toFinset := by
            rw [Finset.mem_sdiff, List.mem_toFinset]
            exact ⟨htarget, hcurrent⟩
          have hsum := Finset.sum_erase_add _ (fun d => (reverse d).length) hmem
          have hset : targets \ insert current seen.toFinset =
              (targets \ seen.toFinset).erase current := by
            ext x
            simp only [Finset.mem_sdiff, Finset.mem_insert, Finset.mem_erase]
            tauto
          rw [hset]
          omega
        · have hset : targets \ insert current seen.toFinset = targets \ seen.toFinset := by
            ext x
            simp only [Finset.mem_sdiff, Finset.mem_insert]
            constructor
            · tauto
            · rintro ⟨hx, hseen⟩
              refine ⟨hx, fun hor => hor.elim (fun heq => ?_) hseen⟩
              exact htarget (heq ▸ hx)
          rw [hset, htargets current htarget]
          simp only [List.length_nil]
          omega

theorem mem_targets : d ∈ s.targets ↔ ∃ c, s.Depends c d := by
  unfold targets Depends
  rw [Finset.mem_biUnion]
  constructor
  · rintro ⟨c, -, hd⟩
    exact ⟨c, List.mem_toFinset.mp hd⟩
  · rintro ⟨c, hd⟩
    exact ⟨c, (s.graph.mem_keys c).mpr (List.ne_nil_of_mem hd), List.mem_toFinset.mpr hd⟩

theorem Counted.mem_reverse (h : s.Counted []) : c ∈ s.reverse d ↔ s.Depends c d := by
  constructor
  · intro hc
    exact (h.known c d hc).resolve_right List.not_mem_nil
  · exact h.linked c d

theorem markLoop_isSome (h : s.Counted []) (c : K) :
    (markLoop (s.reverseSize + 1) [c] [] s).isSome := by
  apply markLoop_ends s.reverse s.targets _ _ _ _ _ rfl
  · unfold reverseSize
    rw [List.toFinset_nil, Finset.sdiff_empty, List.length_singleton]
    omega
  · intro d hd
    apply List.eq_nil_iff_forall_not_mem.mpr
    intro p hp
    exact hd (mem_targets.mpr ⟨p, h.mem_reverse.mp hp⟩)

/-- Only costs are forgotten, those of everything that leads to the checksum. -/
theorem markDirty_spec (h : s.Counted []) (c : K) :
    Trimmed s (s.markDirty c) ∧
      ∀ x, ReflTransGen s.Depends x c → (s.markDirty c).costCache x = none := by
  obtain ⟨t, ht⟩ := Option.isSome_iff_exists.mp (markLoop_isSome h c)
  have heq : s.markDirty c = t := by
    unfold markDirty
    rw [ht]
    rfl
  obtain ⟨htrim, closed, hmarked, hall⟩ := markLoop_spec _ _ _ s t
    (fun _ hc => absurd hc List.not_mem_nil) (fun _ hc => absurd hc List.not_mem_nil) ht
  rw [heq]
  refine ⟨htrim, fun x hx => hmarked.uncached x ?_⟩
  -- along the edges, from the checksum up to everything that leads to it
  induction hx using ReflTransGen.head_induction_on with
  | refl => exact hall c (.inr List.mem_cons_self)
  | head hab _ ih => exact hmarked.parents _ ih _ (h.mem_reverse.mpr hab)

/-! ## §2. Attaching. -/

/-- The reverse sets with the edges of a checksum -/
def linkAll (reverse : K → List K) (c : K) (deps : List K) (d : K) : List K :=
  if d ∈ deps ∧ c ∉ reverse d then c :: reverse d else reverse d

theorem foldl_attach (c : K) (deps : List K) : ∀ s : CostModule K,
    deps.foldl (fun s dep => s.attach c dep) s =
      { s with
        reverse := linkAll s.reverse c deps
        dependencyInterest := fun d => s.dependencyInterest d + deps.count d } := by
  induction deps with
  | nil =>
    intro s
    have hlink : linkAll s.reverse c [] = s.reverse := by
      funext d
      unfold linkAll
      rw [if_neg fun h => List.not_mem_nil h.1]
    rw [hlink]
    rfl
  | cons dep deps ih =>
    intro s
    rw [List.foldl_cons, ih]
    have hlink : linkAll (s.attach c dep).reverse c deps = linkAll s.reverse c (dep :: deps) := by
      funext d
      unfold linkAll
      by_cases hd : d = dep
      · subst hd
        have hself : (s.attach c d).reverse d =
            if c ∈ s.reverse d then s.reverse d else c :: s.reverse d := Function.update_self _ _ _
        -- a link that is there is not made twice
        by_cases hc : c ∈ s.reverse d <;> simp [hself, hc]
      · have hother : (s.attach c dep).reverse d = s.reverse d := Function.update_of_ne hd _ _
        simp [hother, hd]
    have hcount : (fun d => (s.attach c dep).dependencyInterest d + deps.count d) =
        fun d => s.dependencyInterest d + (dep :: deps).count d := by
      funext d
      show Function.update s.dependencyInterest dep _ d + _ = _
      rw [List.count_cons]
      by_cases hd : d = dep
      · subst hd
        rw [Function.update_self, beq_self_eq_true, if_pos rfl]
        omega
      · rw [Function.update_of_ne hd, beq_false_of_ne (Ne.symm hd)]
        simp
    rw [hlink, hcount]
    rfl

/-- The module after the edges are attached -/
theorem attachAll_eq (s : CostModule K) (c : K) (deps : List K) :
    s.attachAll c deps =
      { s with
        graph := s.graph.set c deps
        reverse := linkAll s.reverse c deps
        dependencyInterest := fun d => s.dependencyInterest d + deps.count d } :=
  foldl_attach c deps _

theorem attachAll_counted (h : s.Counted []) (hnone : s.graph.deps c = []) (deps : List K) :
    (s.attachAll c deps).Counted [] := by
  rw [attachAll_eq]
  refine ⟨?_, ?_, ?_, ?_⟩
  · intro d
    show s.dependencyInterest d + deps.count d = (s.graph.set c deps).inCount d + 0
    rw [inCount_set _ hnone, h.counts d]
    rfl
  · intro c' d hd
    have hd : d ∈ (s.graph.set c deps).deps c' := hd
    show c' ∈ linkAll s.reverse c deps d
    unfold linkAll
    by_cases hc : c' = c
    · subst hc
      rw [deps_set_self] at hd
      by_cases hmem : c' ∈ s.reverse d
      · rw [if_neg fun h => h.2 hmem]
        exact hmem
      · rw [if_pos ⟨hd, hmem⟩]
        exact List.mem_cons_self
    · rw [deps_set_ne _ _ hc] at hd
      have hmem := h.linked c' d hd
      split
      · exact List.mem_cons_of_mem _ hmem
      · exact hmem
  · intro c' d hc'
    left
    have hc' : c' ∈ linkAll s.reverse c deps d := hc'
    show d ∈ (s.graph.set c deps).deps c'
    unfold linkAll at hc'
    -- an old link is not one of `c`, which had no dependencies
    have hold : c' ∈ s.reverse d → d ∈ (s.graph.set c deps).deps c' := by
      intro hmem
      have hedge := h.mem_reverse.mp hmem
      have hne : c' ≠ c := by
        intro heq
        subst heq
        unfold Depends at hedge
        rw [hnone] at hedge
        exact absurd hedge List.not_mem_nil
      rw [deps_set_ne _ _ hne]
      exact hedge
    by_cases hnew : d ∈ deps ∧ c ∉ s.reverse d
    · rw [if_pos hnew] at hc'
      rcases List.mem_cons.mp hc' with heq | hmem
      · subst heq
        rw [deps_set_self]
        exact hnew.1
      · exact hold hmem
    · rw [if_neg hnew] at hc'
      exact hold hc'
  · intro d
    show (linkAll s.reverse c deps d).Nodup
    unfold linkAll
    split
    next hnew => exact List.nodup_cons.mpr ⟨hnew.2, h.nodup d⟩
    next => exact h.nodup d

/-! ## §3. Consistency of every step. -/

omit [DecidableEq K] in
/-- What is interesting stays so where counts do not fall. -/
theorem isInteresting_mono (hdirect : s.directInterest c ≤ t.directInterest c)
    (hcount : s.dependencyInterest c ≤ t.dependencyInterest c) (h : s.isInteresting c = true) :
    t.isInteresting c = true := by
  rw [isInteresting_iff] at h ⊢
  omega

theorem Trimmed.consistent (h : Trimmed s t) (hs : s.Consistent) : t.Consistent := by
  obtain ⟨hsame, hcached⟩ := h
  constructor
  · rw [hsame]
    exact ⟨hs.counted.counts, hs.counted.linked, hs.counted.known, hs.counted.nodup⟩
  · intro c hc
    -- a cost that is still there was there before
    have hinteresting := hs.cached c (by rw [← hcached c hc]; exact hc)
    rw [hsame]
    exact hinteresting

theorem detach_consistent (h : s.Consistent) (c : K) : (s.detach c).Consistent :=
  (detach_spec h c).1.consistent

theorem attachAll_consistent (h : s.Consistent) (hnone : s.graph.deps c = []) (deps : List K) :
    (s.attachAll c deps).Consistent where
  counted := attachAll_counted h.counted hnone deps
  cached d hd := by
    rw [attachAll_eq] at hd ⊢
    refine isInteresting_mono (s := s) (Nat.le_refl _) ?_ (h.cached d hd)
    show s.dependencyInterest d ≤ s.dependencyInterest d + deps.count d
    omega

theorem markDirty_consistent (h : s.Consistent) (c : K) : (s.markDirty c).Consistent :=
  (markDirty_spec h.counted c).1.consistent h

/-- The registered dependencies, before costs are marked -/
def registered (s : CostModule K) (c : K) (deps : List K) : CostModule K :=
  if deps = [] then s.detach c else (s.detach c).attachAll c deps

theorem registerDependencies_eq (s : CostModule K) (c : K) (deps : List K) :
    s.registerDependencies c deps =
      if (s.registered c deps).isInteresting c then (s.registered c deps).markDirty c
      else s.registered c deps := rfl

theorem registered_consistent (h : s.Consistent) (c : K) (deps : List K) :
    (s.registered c deps).Consistent := by
  unfold registered
  split
  · exact detach_consistent h c
  · exact attachAll_consistent (detach_consistent h c) (detach_spec h c).2 deps

theorem setDirectInterest_counted (h : s.Counted []) (c : K) (n : Nat) :
    (s.setDirectInterest c n).Counted [] :=
  ⟨h.counts, h.linked, h.known, h.nodup⟩

theorem setDirectInterest_consistent (h : s.Consistent) {n : Nat}
    (hn : 0 < n ∨ 0 < s.dependencyInterest c) : (s.setDirectInterest c n).Consistent where
  counted := setDirectInterest_counted h.counted c n
  cached d hd := by
    have hinteresting := h.cached d hd
    rw [isInteresting_iff] at hinteresting ⊢
    show 0 < Function.update s.directInterest c n d ∨ 0 < s.dependencyInterest d
    by_cases hdc : d = c
    · subst hdc
      rw [Function.update_self]
      exact hn
    · rw [Function.update_of_ne hdc]
      exact hinteresting

/-- The state in which the last interest is released -/
def leaving (s : CostModule K) (c : K) : CostModule K := (s.setDirectInterest c 0).dropCost c

theorem leaving_consistent (h : s.Consistent) (c : K) : (s.leaving c).Consistent where
  counted := ⟨h.counted.counts, h.counted.linked, h.counted.known, h.counted.nodup⟩
  cached d hd := by
    have hd : Function.update s.costCache c none d ≠ none := hd
    have hdc : d ≠ c := by
      intro heq
      rw [heq, Function.update_self] at hd
      exact hd rfl
    rw [Function.update_of_ne hdc] at hd
    have hinteresting := h.cached d hd
    rw [isInteresting_iff] at hinteresting ⊢
    show 0 < Function.update s.directInterest c 0 d ∨ 0 < s.dependencyInterest d
    rw [Function.update_of_ne hdc]
    exact hinteresting

/-- `remove_interest` counts down, or releases what nothing else depends on. -/
theorem removeInterest_cases (s : CostModule K) (c : K) :
    s.removeInterest c = s ∧ s.directInterest c = 0 ∨
    (∃ n, s.removeInterest c = s.setDirectInterest c n ∧ s.directInterest c = n + 1 ∧
      (0 < n ∨ 0 < s.dependencyInterest c)) ∨
    s.removeInterest c = (s.leaving c).detach c ∧ s.directInterest c = 1 ∧
      s.dependencyInterest c = 0 := by
  unfold removeInterest
  cases hn : s.directInterest c with
  | zero => exact .inl ⟨rfl, rfl⟩
  | succ n =>
    right
    cases n with
    | succ n => exact .inl ⟨n + 1, rfl, rfl, .inl (Nat.succ_pos n)⟩
    | zero =>
      dsimp only
      unfold release
      cases hi : (s.setDirectInterest c 0).isInteresting c with
      -- something else depends on it: the interest ends, and nothing is released
      | true =>
        left
        refine ⟨0, rfl, rfl, .inr ?_⟩
        rcases isInteresting_iff.mp hi with hdirect | hcount
        · have hdirect : 0 < Function.update s.directInterest c 0 c := hdirect
          rw [Function.update_self] at hdirect
          omega
        · exact hcount
      | false =>
        right
        exact ⟨rfl, rfl, (not_isInteresting_iff.mp hi).2⟩

/-- Lengths and costs do not enter the maps. -/
theorem Consistent.of_same (h : s.Consistent) (hgraph : t.graph = s.graph)
    (hreverse : t.reverse = s.reverse) (hcount : t.dependencyInterest = s.dependencyInterest)
    (hdirect : t.directInterest = s.directInterest) (hcache : t.costCache = s.costCache) :
    t.Consistent where
  counted :=
    { counts := by rw [hgraph, hcount]; exact h.counted.counts
      linked := by rw [hgraph, hreverse]; exact h.counted.linked
      known := by rw [hgraph, hreverse]; exact h.counted.known
      nodup := by rw [hreverse]; exact h.counted.nodup }
  cached c hc := by
    rw [hcache] at hc
    unfold isInteresting totalInterest
    rw [hcount, hdirect]
    exact h.cached c hc

theorem notifyLength_consistent (h : s.Consistent) (c : K) (length : Option Int) :
    (s.notifyLength c length).1.Consistent := by
  unfold notifyLength
  cases length with
  | none => exact h
  | some length =>
    dsimp only
    split
    · exact h
    · exact h.of_same rfl rfl rfl rfl rfl

theorem initial_consistent : (initial : CostModule K).Consistent where
  counted :=
    { counts := fun _ => rfl
      linked := fun _ _ hd => absurd hd List.not_mem_nil
      known := fun _ _ hc => absurd hc List.not_mem_nil
      nodup := fun _ => List.nodup_nil }
  cached _ hc := absurd rfl hc

end CostModule

end SeamlessCore.EvictionCost
