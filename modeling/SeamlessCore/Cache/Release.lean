/-
  SeamlessCore.Cache.Release — what a release lets go.

  When a count falls to zero, the dependencies of the checksum are detached,
  which may take other counts to zero.  The invariant follows this recursion:
  counts and reverse sets are those of the current graph, plus the edges that
  are popped and not yet given back.  What is detached is exactly what nothing
  else leads to from a direct interest.

  Main results:
    * `detachFuel_releasing` — the recursion ends and keeps the invariant;
    * `detach_spec` — the state after a release;
    * `detach_lost`, `detach_kept` — what it detaches, and what stays.
-/
import SeamlessCore.Cache.EvictionCost

namespace SeamlessCore.EvictionCost

open DepGraph

variable {K : Type} [DecidableEq K]

namespace CostModule

omit [DecidableEq K] in
theorem isInteresting_iff {s : CostModule K} {c : K} :
    s.isInteresting c = true ↔ 0 < s.directInterest c ∨ 0 < s.dependencyInterest c := by
  unfold isInteresting totalInterest
  rw [decide_eq_true_iff]
  omega

omit [DecidableEq K] in
theorem not_isInteresting_iff {s : CostModule K} {c : K} :
    s.isInteresting c = false ↔ s.directInterest c = 0 ∧ s.dependencyInterest c = 0 := by
  unfold isInteresting totalInterest
  rw [decide_eq_false_iff_not]
  omega

/-! ## §1. Counts and reverse sets. -/

/-- Counts and reverse sets belong to the graph and to the edges `pending`,
which were popped and are still to be given back. -/
structure Counted (s : CostModule K) (pending : List (K × K)) : Prop where
  counts : ∀ d, s.dependencyInterest d = s.graph.inCount d + (pending.map Prod.snd).count d
  linked : ∀ c d, d ∈ s.graph.deps c → c ∈ s.reverse d
  known : ∀ c d, c ∈ s.reverse d → d ∈ s.graph.deps c ∨ (c, d) ∈ pending
  nodup : ∀ d, (s.reverse d).Nodup

/-- What is registered is depended on. -/
def Depends (s : CostModule K) (c d : K) : Prop := d ∈ s.graph.deps c

/-- There is direct interest. -/
def Wanted (s : CostModule K) (c : K) : Prop := 0 < s.directInterest c

variable {s s₀ t : CostModule K} {pending : List (K × K)} {c d : K}

theorem Counted.pos (h : s.Counted pending) (hd : s.Depends c d) :
    0 < s.dependencyInterest d := by
  have hcount : 0 < s.graph.inCount d := inCount_pos.mpr ⟨c, hd⟩
  rw [h.counts d]
  omega

/-- Nothing depends on a checksum without interest. -/
theorem Counted.no_edge (h : s.Counted pending) (hd : s.isInteresting d = false) (c : K) :
    d ∉ s.graph.deps c := by
  intro hedge
  have hpos := h.pos (c := c) hedge
  have hzero := (not_isInteresting_iff.mp hd).2
  omega

/-- Popping the dependencies makes them pending. -/
theorem Counted.pop (h : s.Counted pending) (c : K) :
    (s.pop c).Counted ((s.graph.deps c).map (fun d => (c, d)) ++ pending) where
  counts d := by
    have hcount := h.counts d
    have herase := inCount_erase s.graph c d
    show s.dependencyInterest d = (s.graph.erase c).inCount d + _
    rw [List.map_append, List.map_map, List.count_append]
    have hid : (Prod.snd ∘ fun d => (c, d)) = (id : K → K) := rfl
    rw [hid, List.map_id]
    omega
  linked c' d hd := by
    apply h.linked
    by_cases hc : c' = c
    · subst hc
      rw [show (s.pop c').graph.deps c' = [] from deps_erase_self _ _] at hd
      exact absurd hd List.not_mem_nil
    · rw [← deps_erase_ne s.graph hc]
      exact hd
  known c' d hc' := by
    by_cases hc : c' = c
    · subst hc
      right
      rcases h.known c' d hc' with hd | hpending
      · exact List.mem_append_left _ (List.mem_map.mpr ⟨d, hd, rfl⟩)
      · exact List.mem_append_right _ hpending
    · rcases h.known c' d hc' with hd | hpending
      · left
        show d ∈ (s.graph.erase c).deps c'
        rw [deps_erase_ne s.graph hc]
        exact hd
      · exact .inr (List.mem_append_right _ hpending)
  nodup := h.nodup

/-- A pending edge is given back. -/
theorem Counted.giveBack (h : s.Counted ((c, d) :: pending)) (hpopped : s.graph.deps c = []) :
    ((s.unlink c d).setDependencyInterest d (s.dependencyInterest d - 1)).Counted pending where
  counts d' := by
    have hcount := h.counts d'
    rw [List.map_cons, List.count_cons] at hcount
    show Function.update s.dependencyInterest d _ d' = s.graph.inCount d' + _
    by_cases hd : d' = d
    · subst hd
      rw [Function.update_self]
      simp only [beq_self_eq_true, if_true] at hcount
      omega
    · rw [Function.update_of_ne hd]
      have hne : (d == d') = false := beq_false_of_ne (Ne.symm hd)
      rw [hne] at hcount
      exact hcount
  linked c' d' hd' := by
    have hlinked := h.linked c' d' hd'
    -- the edges of `c` are pending ones, no longer in the graph
    have hc : c' ≠ c := by
      intro heq
      subst heq
      have hd' : d' ∈ s.graph.deps c' := hd'
      rw [hpopped] at hd'
      exact absurd hd' List.not_mem_nil
    show c' ∈ Function.update s.reverse d _ d'
    by_cases hd : d' = d
    · subst hd
      rw [Function.update_self]
      exact List.mem_filter.mpr ⟨hlinked, decide_eq_true hc⟩
    · rw [Function.update_of_ne hd]
      exact hlinked
  known c' d' hc' := by
    have hc' : c' ∈ Function.update s.reverse d ((s.reverse d).filter (· ≠ c)) d' := hc'
    by_cases hd : d' = d
    · subst hd
      rw [Function.update_self] at hc'
      obtain ⟨hmem, hne⟩ := List.mem_filter.mp hc'
      have hne : c' ≠ c := of_decide_eq_true hne
      rcases h.known c' d' hmem with hedge | hpending
      · exact .inl hedge
      · rcases List.mem_cons.mp hpending with heq | hpending
        · exact absurd (Prod.mk.inj heq).1 hne
        · exact .inr hpending
    · rw [Function.update_of_ne hd] at hc'
      rcases h.known c' d' hc' with hedge | hpending
      · exact .inl hedge
      · rcases List.mem_cons.mp hpending with heq | hpending
        · exact absurd (Prod.mk.inj heq).2 hd
        · exact .inr hpending
  nodup d' := by
    show (Function.update s.reverse d _ d').Nodup
    by_cases hd : d' = d
    · subst hd
      rw [Function.update_self]
      exact (h.nodup d').filter _
    · rw [Function.update_of_ne hd]
      exact h.nodup d'

/-! ## §2. The invariant of a release. -/

/-- What a release never touches. -/
structure SameData (s₀ s : CostModule K) : Prop where
  checksumProfiles : s.checksumProfiles = s₀.checksumProfiles
  manualCosts : s.manualCosts = s₀.manualCosts
  cpuSeconds : s.cpuSeconds = s₀.cpuSeconds
  lengths : s.lengths = s₀.lengths
  directInterest : s.directInterest = s₀.directInterest

omit [DecidableEq K] in
theorem SameData.refl (s : CostModule K) : SameData s s := ⟨rfl, rfl, rfl, rfl, rfl⟩

/-- Dropped with the edges of a checksum -/
abbrev Lost (s₀ : CostModule K) (source : K) : K → Prop :=
  Dropped s₀.Depends s₀.Wanted (· = source)

/-- The state in the middle of a release that began in `s₀`.  `leaving` is a
checksum that has lost its interest and is released next. -/
structure Releasing (s₀ : CostModule K) (source : K) (pending : List (K × K))
    (leaving : Option K) (s : CostModule K) : Prop where
  counted : s.Counted pending
  data : SameData s₀ s
  /-- Pending edges were there, and their checksums are popped. -/
  popped : ∀ c d, (c, d) ∈ pending → s₀.Depends c d ∧ s.graph.deps c = []
  kept : ∀ c, s.graph.deps c = s₀.graph.deps c ∨
    s.graph.deps c = [] ∧ (c = source ∨ Lost s₀ source c)
  /-- Whoever was interesting and is not has been detached. -/
  held : ∀ c, s₀.isInteresting c = true → s.graph.deps c ≠ [] →
    leaving = some c ∨ s.isInteresting c = true
  cached : ∀ c, s.costCache c ≠ none →
    s.costCache c = s₀.costCache c ∧ (leaving = some c ∨ s.isInteresting c = true)

variable {source : K} {leaving : Option K}

/-- A checksum whose interest is gone is lost. -/
theorem Releasing.lost (h : Releasing s₀ source pending leaving s)
    (hd : s.isInteresting d = false) (hkept : ∃ c, s₀.Depends c d) :
    Lost s₀ source d := by
  obtain ⟨hdirect, -⟩ := not_isInteresting_iff.mp hd
  apply Dropped.intro d
  · unfold Wanted
    rw [← h.data.directInterest, hdirect]
    omega
  · exact hkept
  · intro c hedge hsource
    -- the edge is gone, so its checksum was popped
    rcases h.kept c with hsame | ⟨-, hs | hlost⟩
    · have hgone := h.counted.no_edge hd c
      rw [hsame] at hgone
      exact absurd hedge hgone
    · exact absurd hs hsource
    · exact hlost

/-- The dependencies of a lost checksum are popped. -/
theorem Releasing.pop (h : Releasing s₀ source pending leaving s)
    (hleaving : leaving = none ∨ leaving = some c ∧ s.costCache c = none)
    (hlost : c = source ∨ Lost s₀ source c) :
    Releasing s₀ source ((s.graph.deps c).map (fun d => (c, d)) ++ pending) none
      (s.pop c) where
  counted := h.counted.pop c
  data := ⟨h.data.1, h.data.2, h.data.3, h.data.4, h.data.5⟩
  popped c' d hmem := by
    -- what was popped before stays without dependencies
    have hpop : ∀ c', s.graph.deps c' = [] → (s.pop c).graph.deps c' = [] := by
      intro c' hnil
      by_cases hc : c' = c
      · subst hc
        exact deps_erase_self _ _
      · exact (deps_erase_ne s.graph hc).trans hnil
    rcases List.mem_append.mp hmem with hnew | hold
    · obtain ⟨d', hd', heq⟩ := List.mem_map.mp hnew
      cases heq
      refine ⟨?_, deps_erase_self _ _⟩
      -- the dependencies of `c` are still those of the start
      rcases h.kept c with hsame | ⟨hnil, -⟩
      · unfold Depends
        rw [← hsame]
        exact hd'
      · rw [hnil] at hd'
        exact absurd hd' List.not_mem_nil
    · obtain ⟨hedge, hnil⟩ := h.popped c' d hold
      exact ⟨hedge, hpop c' hnil⟩
  kept c' := by
    by_cases hc : c' = c
    · subst hc
      exact .inr ⟨deps_erase_self _ _, hlost⟩
    · show (s.graph.erase c).deps c' = _ ∨ (s.graph.erase c).deps c' = [] ∧ _
      rw [deps_erase_ne s.graph hc]
      exact h.kept c'
  held c' hinteresting hdeps := by
    have hc : c' ≠ c := by
      intro heq
      subst heq
      exact hdeps (deps_erase_self _ _)
    have hdeps : s.graph.deps c' ≠ [] := by
      rw [← deps_erase_ne s.graph hc]
      exact hdeps
    right
    rcases h.held c' hinteresting hdeps with hleave | hstill
    · rcases hleaving with hnone | ⟨hsome, -⟩
      · rw [hnone] at hleave
        cases hleave
      · rw [hsome] at hleave
        exact absurd (Option.some.inj hleave).symm hc
    · exact hstill
  cached c' hc' := by
    obtain ⟨hsame, hheld⟩ := h.cached c' hc'
    refine ⟨hsame, ?_⟩
    right
    rcases hheld with hleave | hstill
    · rcases hleaving with hnone | ⟨hsome, hnocache⟩
      · rw [hnone] at hleave
        cases hleave
      · rw [hsome] at hleave
        cases hleave
        exact absurd hnocache hc'
    · exact hstill

/-- An edge is given back; its dependency may have to leave. -/
theorem Releasing.giveBack (h : Releasing s₀ source ((c, d) :: pending) none s) :
    Releasing s₀ source pending (some d)
      ((s.unlink c d).setDependencyInterest d (s.dependencyInterest d - 1)) where
  counted := h.counted.giveBack (h.popped c d List.mem_cons_self).2
  data := ⟨h.data.1, h.data.2, h.data.3, h.data.4, h.data.5⟩
  popped c' d' hmem := h.popped c' d' (List.mem_cons_of_mem _ hmem)
  kept := h.kept
  held c' hinteresting hdeps := by
    by_cases hc : c' = d
    · subst hc
      exact .inl rfl
    · right
      rcases h.held c' hinteresting hdeps with hleave | hstill
      · cases hleave
      · rw [isInteresting_iff] at hstill ⊢
        show 0 < s.directInterest c' ∨ 0 < Function.update s.dependencyInterest d _ c'
        rw [Function.update_of_ne hc]
        exact hstill
  cached c' hc' := by
    obtain ⟨hsame, hheld⟩ := h.cached c' hc'
    refine ⟨hsame, ?_⟩
    by_cases hc : c' = d
    · subst hc
      exact .inl rfl
    · right
      rcases hheld with hleave | hstill
      · cases hleave
      · rw [isInteresting_iff] at hstill ⊢
        show 0 < s.directInterest c' ∨ 0 < Function.update s.dependencyInterest d _ c'
        rw [Function.update_of_ne hc]
        exact hstill

/-- A checksum with interest stays. -/
theorem Releasing.stay (h : Releasing s₀ source pending (some d) s)
    (hd : s.isInteresting d = true) : Releasing s₀ source pending none s where
  counted := h.counted
  data := h.data
  popped := h.popped
  kept := h.kept
  held c hinteresting hdeps := by
    right
    rcases h.held c hinteresting hdeps with hleave | hstill
    · cases hleave
      exact hd
    · exact hstill
  cached c hc := by
    obtain ⟨hsame, hheld⟩ := h.cached c hc
    refine ⟨hsame, .inr ?_⟩
    rcases hheld with hleave | hstill
    · cases hleave
      exact hd
    · exact hstill

/-- A checksum without cost and without dependencies has left. -/
theorem Releasing.leave (h : Releasing s₀ source pending (some d) s)
    (hcache : s.costCache d = none) (hdeps : s.graph.deps d = []) :
    Releasing s₀ source pending none s where
  counted := h.counted
  data := h.data
  popped := h.popped
  kept := h.kept
  held c hinteresting hc := by
    right
    rcases h.held c hinteresting hc with hleave | hstill
    · cases hleave
      exact absurd hdeps hc
    · exact hstill
  cached c hc := by
    obtain ⟨hsame, hheld⟩ := h.cached c hc
    refine ⟨hsame, .inr ?_⟩
    rcases hheld with hleave | hstill
    · cases hleave
      exact absurd hcache hc
    · exact hstill

theorem Releasing.dropCost (h : Releasing s₀ source pending leaving s) (d : K) :
    Releasing s₀ source pending leaving (s.dropCost d) where
  counted := ⟨h.counted.counts, h.counted.linked, h.counted.known, h.counted.nodup⟩
  data := ⟨h.data.1, h.data.2, h.data.3, h.data.4, h.data.5⟩
  popped := h.popped
  kept := h.kept
  held := h.held
  cached c hc := by
    have hc : Function.update s.costCache d none c ≠ none := hc
    by_cases hd : c = d
    · subst hd
      rw [Function.update_self] at hc
      exact absurd rfl hc
    · rw [Function.update_of_ne hd] at hc
      show Function.update s.costCache d none c = _ ∧ _
      rw [Function.update_of_ne hd]
      exact h.cached c hc

/-! ## §3. The recursion. -/

/-- A release that ends, with its invariant, in a graph that has not grown. -/
def Ends (s₀ : CostModule K) (source : K) (pending : List (K × K)) (bound : Finset K)
    (r : Option (CostModule K)) : Prop :=
  ∃ t, r = some t ∧ Releasing s₀ source pending none t ∧ t.graph.keys ⊆ bound

/-- What a call of `_detach_dependencies` is to do for a lost checksum. -/
def Detaches (s₀ : CostModule K) (source : K)
    (detach : CostModule K → K → Option (CostModule K)) (fuel : Nat) : Prop :=
  ∀ s c pending, Releasing s₀ source pending (some c) s → s.costCache c = none →
    Lost s₀ source c → s.graph.keys.card ≤ fuel →
    Ends s₀ source pending s.graph.keys (detach s c)

variable {detach : CostModule K → K → Option (CostModule K)} {fuel : Nat}

/-- `_maybe_release` of a checksum that may have to leave -/
theorem maybeRelease_releasing (hdetach : Detaches s₀ source detach fuel)
    (h : Releasing s₀ source pending (some c) s)
    (hkept : s.isInteresting c = false → ∃ p, s₀.Depends p c)
    (hfuel : s.graph.keys.card ≤ fuel) :
    Ends s₀ source pending s.graph.keys (maybeRelease detach s c) := by
  unfold maybeRelease
  cases hc : s.isInteresting c with
  | true => exact ⟨s, rfl, h.stay hc, Finset.Subset.refl _⟩
  | false =>
    rw [if_neg Bool.false_ne_true]
    apply hdetach (s.dropCost c) c pending (h.dropCost c)
    · exact Function.update_self _ _ _
    · exact h.lost hc (hkept hc)
    · exact hfuel

theorem decrement_releasing (hdetach : Detaches s₀ source detach fuel)
    (h : Releasing s₀ source ((c, d) :: pending) none s) (hfuel : s.graph.keys.card ≤ fuel) :
    Ends s₀ source pending s.graph.keys (decrement detach (s.unlink c d) d) := by
  have hback := h.giveBack
  have hcount : 0 < s.dependencyInterest d := by
    rw [h.counted.counts d, List.map_cons, List.count_cons_self]
    omega
  have hedge : s₀.Depends c d := (h.popped c d List.mem_cons_self).1
  unfold decrement
  rw [show (s.unlink c d).dependencyInterest d = s.dependencyInterest d from rfl]
  cases hn : s.dependencyInterest d with
  | zero => omega
  | succ n =>
    rw [hn] at hback
    cases n with
    | zero => exact maybeRelease_releasing hdetach hback (fun _ => ⟨c, hedge⟩) hfuel
    | succ n =>
      refine ⟨_, rfl, hback.stay ?_, Finset.Subset.refl _⟩
      rw [isInteresting_iff]
      right
      show 0 < Function.update s.dependencyInterest d (n + 1) d
      rw [Function.update_self]
      omega

theorem detachLoop_releasing (hdetach : Detaches s₀ source detach fuel) (c : K)
    (deps : List K) : ∀ s, Releasing s₀ source (deps.map (fun d => (c, d)) ++ pending) none s →
    s.graph.keys.card ≤ fuel →
    Ends s₀ source pending s.graph.keys (detachLoop detach c deps s) := by
  induction deps with
  | nil =>
    intro s h _
    exact ⟨s, rfl, h, Finset.Subset.refl _⟩
  | cons d deps ih =>
    intro s h hfuel
    obtain ⟨t, ht, hreleasing, hsub⟩ := decrement_releasing hdetach h hfuel
    obtain ⟨u, hu, hdone, hsub'⟩ :=
      ih t hreleasing (Nat.le_trans (Finset.card_le_card hsub) hfuel)
    refine ⟨u, ?_, hdone, hsub'.trans hsub⟩
    unfold detachLoop
    rw [ht]
    exact hu

/-- A call that pops dependencies, where the calls below it behave -/
theorem detach_pop (hdetach : Detaches s₀ source (detachFuel fuel) fuel)
    (h : Releasing s₀ source pending leaving s)
    (hleaving : leaving = none ∨ leaving = some c ∧ s.costCache c = none)
    (hlost : c = source ∨ Lost s₀ source c) (hdeps : s.graph.deps c ≠ [])
    (hfuel : s.graph.keys.card ≤ fuel + 1) :
    Ends s₀ source pending (s.graph.keys.erase c) (detachFuel (fuel + 1) s c) := by
  have hcard : (s.pop c).graph.keys.card + 1 = s.graph.keys.card := card_erase s.graph hdeps
  obtain ⟨t, ht, hdone, hless⟩ :=
    detachLoop_releasing hdetach c (s.graph.deps c) (s.pop c) (h.pop hleaving hlost) (by omega)
  refine ⟨t, ?_, hdone, hless⟩
  unfold detachFuel
  rw [if_neg hdeps]
  exact ht

theorem detachFuel_nil (hdeps : s.graph.deps c = []) : detachFuel fuel s c = some s := by
  cases fuel <;> exact if_pos hdeps

/-- The release ends, and no call goes deeper than there are checksums with
dependencies. -/
theorem detachFuel_releasing (s₀ : CostModule K) (source : K) (fuel : Nat) :
    Detaches s₀ source (detachFuel fuel) fuel := by
  induction fuel with
  | zero =>
    intro s c pending h hcache _ hfuel
    have hdeps : s.graph.deps c = [] := by
      by_contra hne
      have hcard := card_erase s.graph hne
      omega
    exact ⟨s, detachFuel_nil hdeps, h.leave hcache hdeps, Finset.Subset.refl _⟩
  | succ fuel ih =>
    intro s c pending h hcache hlost hfuel
    by_cases hdeps : s.graph.deps c = []
    · exact ⟨s, detachFuel_nil hdeps, h.leave hcache hdeps, Finset.Subset.refl _⟩
    · obtain ⟨t, ht, hdone, hsub⟩ := detach_pop ih h (.inr ⟨rfl, hcache⟩) (.inr hlost) hdeps hfuel
      exact ⟨t, ht, hdone, hsub.trans (Finset.erase_subset _ _)⟩

/-! ## §4. Consistent states. -/

/-- Counts and reverse sets are those of the graph, and only interesting
checksums have a cached cost. -/
structure Consistent (s : CostModule K) : Prop where
  counted : s.Counted []
  cached : ∀ c, s.costCache c ≠ none → s.isInteresting c = true

theorem Releasing.start (h : s.Consistent) (source : K) :
    Releasing s source [] none s where
  counted := h.counted
  data := .refl s
  popped _ _ hmem := absurd hmem List.not_mem_nil
  kept _ := .inl rfl
  held _ hc _ := .inr hc
  cached c hc := ⟨rfl, .inr (h.cached c hc)⟩

theorem Releasing.consistent (h : Releasing s₀ source [] none s) : s.Consistent where
  counted := h.counted
  cached c hc := by
    rcases (h.cached c hc).2 with hleave | hstill
    · cases hleave
    · exact hstill

/-- `_detach_dependencies` of a checksum itself ends. -/
theorem detachFuel_ends (h : s.Consistent) (c : K) :
    Ends s c [] (s.graph.keys.erase c)
      (detachFuel s.graph.keys.card s c) := by
  have hstart := Releasing.start h c
  by_cases hdeps : s.graph.deps c = []
  · refine ⟨s, detachFuel_nil hdeps, hstart, ?_⟩
    have hkey : c ∉ s.graph.keys := fun hmem => (s.graph.mem_keys c).mp hmem hdeps
    rw [Finset.erase_eq_of_notMem hkey]
  · obtain ⟨n, hn⟩ : ∃ n, s.graph.keys.card = n + 1 := ⟨_, (card_erase s.graph hdeps).symm⟩
    rw [hn]
    exact detach_pop (detachFuel_releasing s c n) hstart (.inl rfl)
      (.inl rfl) hdeps (Nat.le_of_eq hn)

/-- The state after `_detach_dependencies(checksum)` -/
theorem detach_spec (h : s.Consistent) (c : K) :
    Releasing s c [] none (s.detach c) ∧
      (s.detach c).graph.deps c = [] := by
  obtain ⟨t, ht, hdone, hsub⟩ := detachFuel_ends h c
  have heq : s.detach c = t := by
    unfold CostModule.detach
    rw [ht]
    rfl
  rw [heq]
  refine ⟨hdone, ?_⟩
  by_contra hne
  have hkey := hsub ((t.graph.mem_keys c).mpr hne)
  exact Finset.notMem_erase c s.graph.keys hkey

/-! ## §5. What is detached. -/

/-- A lost checksum has lost its dependencies and its interest. -/
theorem detach_lost (h : s.Consistent) {x : K} (hx : Lost s c x) :
    (s.detach c).graph.deps x = [] ∧ (s.detach c).isInteresting x = false := by
  obtain ⟨hdone, hself⟩ := detach_spec h c
  induction hx with
  | intro x hroot hedge hpreds ih =>
    -- every edge to the checksum was popped
    have hnone : ∀ p, x ∉ (s.detach c).graph.deps p := by
      intro p hp
      by_cases hpc : p = c
      · rw [hpc, hself] at hp
        exact absurd hp List.not_mem_nil
      · rcases hdone.kept p with hsame | ⟨hnil, -⟩
        · have hedge : s.Depends p x := by
            unfold Depends
            rw [← hsame]
            exact hp
          rw [(ih p hedge hpc).1] at hp
          exact absurd hp List.not_mem_nil
        · rw [hnil] at hp
          exact absurd hp List.not_mem_nil
    have hcount : (s.detach c).dependencyInterest x = 0 := by
      rw [hdone.counted.counts x]
      by_contra hne
      have hpos : 0 < (s.detach c).graph.inCount x := Nat.pos_of_ne_zero hne
      obtain ⟨p, hp⟩ := inCount_pos.mp hpos
      exact hnone p hp
    have hdirect : (s.detach c).directInterest x = 0 := by
      rw [hdone.data.directInterest]
      exact Nat.eq_zero_of_not_pos hroot
    have hgone := not_isInteresting_iff.mpr ⟨hdirect, hcount⟩
    refine ⟨?_, hgone⟩
    by_contra hne
    obtain ⟨p, hp⟩ := hedge
    have hwas : s.isInteresting x = true := isInteresting_iff.mpr (.inr (h.counted.pos hp))
    rcases hdone.held x hwas hne with hleave | hstill
    · cases hleave
    · rw [hgone] at hstill
      cases hstill

/-- Every other checksum keeps its dependencies. -/
theorem detach_kept (h : s.Consistent) {x : K} (hx : ¬ Lost s c x) (hne : x ≠ c) :
    (s.detach c).graph.deps x = s.graph.deps x := by
  rcases (detach_spec h c).1.kept x with hsame | ⟨-, heq | hlost⟩
  · exact hsame
  · exact absurd heq hne
  · exact absurd hlost hx

/-- No edge is new. -/
theorem detach_depends (h : s.Consistent) {x y : K} (hxy : (s.detach c).Depends x y) :
    s.Depends x y := by
  rcases (detach_spec h c).1.kept x with hsame | ⟨hnil, -⟩
  · unfold Depends at hxy ⊢
    rw [← hsame]
    exact hxy
  · unfold Depends at hxy
    rw [hnil] at hxy
    exact absurd hxy List.not_mem_nil

end CostModule

end SeamlessCore.EvictionCost
