/-
  SeamlessCore.Cache.Costs — what an eviction cost is, and that it is never stale.

  A checksum has a finite cost where its length is known and all its
  dependencies have one; the finite costs are the least such relation, so that
  a cycle has none.  `_ensure_cost` computes it from a cache that only holds
  such costs, and every update of the module forgets the cached costs that it
  may have changed.

  Main results:
    * `cost_unknown`, `cost_leaf`, `cost_node` — the cost of a checksum from
      those of its dependencies;
    * `ensureFuel_spec` — `_ensure_cost` ends with the cost;
    * `step_coherent` — every call keeps the cache coherent;
    * `eviction_costs_coherent` — maps, releases and costs over every run.
-/
import SeamlessCore.Cache.Registry

namespace SeamlessCore.EvictionCost

open DepGraph Relation

variable {K : Type} [DecidableEq K]

namespace CostModule

variable {s t : CostModule K} {c d : K}

/-! ## §1. The cost of a checksum. -/

/-- The finite costs, as the current maps determine them -/
inductive HasCost (s : CostModule K) : K → ℚ≥0 → Prop where
  | leaf (c : K) (length : Nat) (q : ℚ≥0) : s.lengths c = some length → s.graph.deps c = [] →
      s.combine c length none = q → HasCost s c q
  | node (c : K) (length : Nat) (costs : K → ℚ≥0) (q : ℚ≥0) : s.lengths c = some length →
      s.graph.deps c ≠ [] → (∀ d ∈ s.graph.deps c, HasCost s d (costs d)) →
      s.combine c length (some (((s.graph.deps c).map costs).sum : ℚ≥0)) = q → HasCost s c q

omit [DecidableEq K] in
theorem HasCost.unique {q : ℚ≥0} (h : s.HasCost c q) : ∀ {q' : ℚ≥0}, s.HasCost c q' → q = q' := by
  induction h with
  | leaf c length q hlength hdeps hq =>
    intro q' h'
    cases h' with
    | leaf _ length' _ hlength' _ hq' =>
      rw [hlength] at hlength'
      cases hlength'
      rw [hq] at hq'
      exact WithTop.coe_injective hq'
    | node _ _ _ _ _ hdeps' _ _ => exact absurd hdeps hdeps'
  | node c length costs q hlength hdeps _ hq ih =>
    intro q' h'
    cases h' with
    | leaf _ _ _ _ hdeps' _ => exact absurd hdeps' hdeps
    | node _ length' costs' _ hlength' _ hcosts' hq' =>
      rw [hlength] at hlength'
      cases hlength'
      have hsame : (s.graph.deps c).map costs = (s.graph.deps c).map costs' :=
        List.map_congr_left fun d hd => ih d hd (hcosts' d hd)
      rw [hsame, hq'] at hq
      exact (WithTop.coe_injective hq).symm

open Classical in
/-- The cost of a checksum: infinite where no finite cost is derived -/
noncomputable def cost (s : CostModule K) (c : K) : Cost :=
  if h : ∃ q, s.HasCost c q then ((h.choose : ℚ≥0) : Cost) else ⊤

omit [DecidableEq K] in
theorem cost_eq_coe {q : ℚ≥0} : s.cost c = q ↔ s.HasCost c q := by
  unfold cost
  constructor
  · intro hcost
    split at hcost
    next h =>
      obtain rfl := WithTop.coe_injective hcost
      exact h.choose_spec
    next => cases hcost
  · intro hq
    have hex : ∃ q, s.HasCost c q := ⟨q, hq⟩
    rw [dif_pos hex, hex.choose_spec.unique hq]

omit [DecidableEq K] in
theorem cost_eq_top : s.cost c = ⊤ ↔ ∀ q, ¬ s.HasCost c q := by
  constructor
  · intro htop q hq
    rw [cost_eq_coe.mpr hq] at htop
    cases htop
  · intro hnone
    by_contra hne
    obtain ⟨q, hq⟩ := WithTop.ne_top_iff_exists.mp hne
    exact hnone q (cost_eq_coe.mp hq.symm)

omit [DecidableEq K] in
theorem cost_unknown (h : s.lengths c = none) : s.cost c = ⊤ := by
  rw [cost_eq_top]
  intro q hq
  cases hq with
  | leaf _ _ _ hlength _ _ =>
    rw [h] at hlength
    cases hlength
  | node _ _ _ _ hlength _ _ _ =>
    rw [h] at hlength
    cases hlength

omit [DecidableEq K] in
theorem cost_leaf {length : Nat} (hlength : s.lengths c = some length)
    (hdeps : s.graph.deps c = []) : s.cost c = s.combine c length none := by
  -- the cost may be infinite by itself, and is then not derived
  by_cases hcost : s.combine c length none = ⊤
  · rw [hcost, cost_eq_top]
    intro q hq
    cases hq with
    | leaf _ length' _ hlength' _ hq =>
      rw [hlength] at hlength'
      cases hlength'
      rw [hcost] at hq
      cases hq
    | node _ _ _ _ _ hdeps' _ _ => exact hdeps' hdeps
  · obtain ⟨q, hq⟩ := WithTop.ne_top_iff_exists.mp hcost
    rw [← hq]
    exact cost_eq_coe.mpr (.leaf c length q hlength hdeps hq.symm)

omit [DecidableEq K] in
/-- A sum of costs is finite when every one is. -/
theorem sum_eq_top (costs : K → Cost) (deps : List K) :
    (deps.map costs).sum = ⊤ ↔ ∃ d ∈ deps, costs d = ⊤ := by
  induction deps with
  | nil =>
    constructor
    · intro h
      cases h
    · rintro ⟨d, hd, -⟩
      exact absurd hd List.not_mem_nil
  | cons d deps ih =>
    rw [List.map_cons, List.sum_cons, WithTop.add_eq_top, ih]
    simp only [List.mem_cons, exists_eq_or_imp]

omit [DecidableEq K] in
theorem sum_coe (costs : K → ℚ≥0) (deps : List K) :
    (((deps.map costs).sum : ℚ≥0) : Cost) = (deps.map fun d => ((costs d : ℚ≥0) : Cost)).sum := by
  induction deps with
  | nil => rfl
  | cons d deps ih =>
    rw [List.map_cons, List.map_cons, List.sum_cons, List.sum_cons, WithTop.coe_add, ih]

omit [DecidableEq K] in
theorem cost_node {length : Nat} (hlength : s.lengths c = some length)
    (hdeps : s.graph.deps c ≠ []) :
    s.cost c = if ((s.graph.deps c).map s.cost).sum = ⊤ then ⊤
      else s.combine c length (some ((s.graph.deps c).map s.cost).sum) := by
  by_cases htop : ((s.graph.deps c).map s.cost).sum = ⊤
  · rw [if_pos htop, cost_eq_top]
    obtain ⟨d, hd, hinfinite⟩ := (sum_eq_top s.cost _).mp htop
    intro q hq
    cases hq with
    | leaf _ _ _ _ hdeps' _ => exact hdeps hdeps'
    | node _ _ costs _ _ _ hcosts _ => exact cost_eq_top.mp hinfinite _ (hcosts d hd)
  · rw [if_neg htop]
    -- every dependency has a finite cost
    have hfinite : ∀ d ∈ s.graph.deps c, s.HasCost d ((s.cost d).untopD 0) := by
      intro d hd
      have hne : s.cost d ≠ ⊤ := fun h => htop ((sum_eq_top s.cost _).mpr ⟨d, hd, h⟩)
      obtain ⟨q, hq⟩ := WithTop.ne_top_iff_exists.mp hne
      rw [← hq]
      exact cost_eq_coe.mp hq.symm
    have hsum : ((((s.graph.deps c).map fun d => (s.cost d).untopD 0).sum : ℚ≥0) : Cost) =
        ((s.graph.deps c).map s.cost).sum := by
      rw [sum_coe]
      congr 1
      exact List.map_congr_left fun d hd => (cost_eq_coe.mpr (hfinite d hd)).symm
    by_cases hcost : s.combine c length (some ((s.graph.deps c).map s.cost).sum) = ⊤
    · rw [hcost, cost_eq_top]
      intro q hq
      cases hq with
      | leaf _ _ _ _ hdeps' _ => exact hdeps hdeps'
      | node _ length' costs _ hlength' _ hcosts hq =>
        rw [hlength] at hlength'
        cases hlength'
        have hsame : (s.graph.deps c).map costs =
            (s.graph.deps c).map fun d => (s.cost d).untopD 0 :=
          List.map_congr_left fun d hd => (hcosts d hd).unique (hfinite d hd)
        rw [hsame, hsum, hcost] at hq
        cases hq
    · obtain ⟨q, hq⟩ := WithTop.ne_top_iff_exists.mp hcost
      rw [← hq]
      refine cost_eq_coe.mpr (.node c length _ q hlength hdeps hfinite ?_)
      rw [hsum]
      exact hq.symm

omit [DecidableEq K] in
/-- Whatever a checksum with a finite cost depends on has a known length and is
not on a cycle. -/
theorem HasCost.sound {q : ℚ≥0} (h : s.HasCost c q) :
    ∀ d, ReflTransGen s.Depends c d →
      s.lengths d ≠ none ∧ Acc (fun x y => s.Depends y x) d := by
  -- on the derivation: what is reached is reached from a premise of it
  induction h with
  | leaf c length q hlength hdeps _ =>
    intro d hd
    have hnone : ∀ x, ¬ s.Depends c x := by
      intro x hx
      unfold Depends at hx
      rw [hdeps] at hx
      exact List.not_mem_nil hx
    rcases ReflTransGen.cases_head hd with heq | ⟨x, hx, -⟩
    · subst heq
      refine ⟨?_, ⟨_, fun x hx => absurd hx (hnone x)⟩⟩
      rw [hlength]
      exact Option.some_ne_none _
    · exact absurd hx (hnone x)
  | node c length costs q hlength _ _ _ ih =>
    intro d hd
    rcases ReflTransGen.cases_head hd with heq | ⟨x, hx, hrest⟩
    · subst heq
      refine ⟨?_, ⟨_, fun x hx => (ih x hx x .refl).2⟩⟩
      rw [hlength]
      exact Option.some_ne_none _
    · exact ih x hx d hrest

omit [DecidableEq K] in
/-- A cost is infinite where an unknown length or a cycle is reached. -/
theorem cost_reached (hd : ReflTransGen s.Depends c d)
    (hbad : s.lengths d = none ∨ TransGen s.Depends d d) : s.cost c = ⊤ := by
  rw [cost_eq_top]
  intro q hq
  obtain ⟨hlength, hacc⟩ := hq.sound d hd
  rcases hbad with hunknown | hcycle
  · exact hlength hunknown
  · exact acc_no_cycle hacc hcycle

/-! ## §2. Costs and updates. -/

/-- Two modules know the same about a checksum. -/
structure Agrees (s t : CostModule K) (c : K) : Prop where
  deps : s.graph.deps c = t.graph.deps c
  lengths : s.lengths c = t.lengths c
  manualCosts : s.manualCosts c = t.manualCosts c
  checksumProfiles : s.checksumProfiles c = t.checksumProfiles c
  cpuSeconds : s.cpuSeconds c = t.cpuSeconds c

omit [DecidableEq K] in
theorem Agrees.refl (s : CostModule K) (c : K) : Agrees s s c := ⟨rfl, rfl, rfl, rfl, rfl⟩

omit [DecidableEq K] in
theorem Agrees.combine (h : Agrees s t c) (length : Nat) (cost : Option Cost) :
    s.combine c length cost = t.combine c length cost := by
  unfold CostModule.combine downloadCost transformationCost
  rw [h.manualCosts, h.checksumProfiles, h.cpuSeconds]

omit [DecidableEq K] in
theorem HasCost.congr {q : ℚ≥0} (h : s.HasCost c q)
    (hagrees : ∀ d, ReflTransGen s.Depends c d → Agrees s t d) : t.HasCost c q := by
  induction h with
  | leaf c length q hlength hdeps hq =>
    have hc := hagrees c .refl
    apply HasCost.leaf c length q
    · rw [← hc.lengths]
      exact hlength
    · rw [← hc.deps]
      exact hdeps
    · rw [← hc.combine]
      exact hq
  | node c length costs q hlength hdeps _ hq ih =>
    have hc := hagrees c .refl
    apply HasCost.node c length costs q
    · rw [← hc.lengths]
      exact hlength
    · rw [← hc.deps]
      exact hdeps
    · rw [← hc.deps]
      exact fun d hd => ih d hd fun x hx => hagrees x (.head hd hx)
    · rw [← hc.combine, ← hc.deps]
      exact hq

omit [DecidableEq K] in
/-- Where two modules agree, the same checksums are reached. -/
theorem reached_congr (hagrees : ∀ d, ReflTransGen s.Depends c d → Agrees s t d)
    (hd : ReflTransGen t.Depends c d) : ReflTransGen s.Depends c d := by
  induction hd with
  | refl => exact .refl
  | tail _ hedge ih =>
    refine ih.tail ?_
    unfold Depends at hedge ⊢
    rw [(hagrees _ ih).deps]
    exact hedge

omit [DecidableEq K] in
/-- A cost depends on what is reached only. -/
theorem cost_congr (hagrees : ∀ d, ReflTransGen s.Depends c d → Agrees s t d) :
    s.cost c = t.cost c := by
  have hback : ∀ d, ReflTransGen t.Depends c d → Agrees t s d := by
    intro d hd
    obtain ⟨h₁, h₂, h₃, h₄, h₅⟩ := hagrees d (reached_congr hagrees hd)
    exact ⟨h₁.symm, h₂.symm, h₃.symm, h₄.symm, h₅.symm⟩
  by_cases htop : s.cost c = ⊤
  · rw [htop, eq_comm, cost_eq_top]
    intro q hq
    exact cost_eq_top.mp htop q (hq.congr hback)
  · obtain ⟨q, hq⟩ := WithTop.ne_top_iff_exists.mp htop
    rw [← hq, eq_comm]
    exact cost_eq_coe.mpr ((cost_eq_coe.mp hq.symm).congr hagrees)

/-- The maps are consistent and every cached cost is the cost. -/
structure Coherent (s : CostModule K) : Prop where
  consistent : s.Consistent
  costs : ∀ c v, s.costCache c = some v → v = s.cost c

/-- What a checksum with interest leads to has interest. -/
theorem Consistent.depends_interesting (h : s.Consistent) (hcd : s.Depends c d) :
    s.isInteresting d = true := isInteresting_iff.mpr (.inr (h.counted.pos hcd))

/-- An update around `c`: cached costs are old ones of `live` checksums, and
as long as `c` is not met, these are as before and lead to live ones only. -/
structure UpdatedAt (s t : CostModule K) (c : K) (live : K → Prop) : Prop where
  cached : ∀ x, t.costCache x ≠ none → t.costCache x = s.costCache x ∧ live x
  agrees : ∀ x, live x → x ≠ c → Agrees t s x
  closed : ∀ x y, live x → x ≠ c → t.Depends x y → live y

omit [DecidableEq K] in
/-- What does not lead to the updated checksum has its old cost. -/
theorem UpdatedAt.cost_eq {live : K → Prop} (h : UpdatedAt s t c live) {x : K} (hx : live x)
    (havoids : ¬ ReflTransGen t.Depends x c) : t.cost x = s.cost x := by
  -- the way never meets the updated checksum, so it stays among the live ones
  have hlive : ∀ y, ReflTransGen t.Depends x y → live y ∧ y ≠ c := by
    intro y hy
    have hne : ∀ z, ReflTransGen t.Depends x z → z ≠ c := by
      intro z hz heq
      exact havoids (heq ▸ hz)
    refine ⟨?_, hne y hy⟩
    induction hy with
    | refl => exact hx
    | tail hpath hedge ih => exact h.closed _ _ ih (hne _ hpath) hedge
  apply cost_congr
  intro y hy
  exact h.agrees y (hlive y hy).1 (hlive y hy).2

/-- An update that nobody is interested in keeps the cache coherent. -/
theorem UpdatedAt.coherent {live : K → Prop} (h : UpdatedAt s t c live) (hs : s.Coherent)
    (ht : t.Consistent) (hc : t.isInteresting c = false) : t.Coherent where
  consistent := ht
  costs x v hv := by
    have hne : t.costCache x ≠ none := by
      rw [hv]
      exact Option.some_ne_none v
    obtain ⟨hsame, hlive⟩ := h.cached x hne
    rw [h.cost_eq hlive]
    · apply hs.costs
      rw [← hsame]
      exact hv
    · intro hreach
      -- nothing leads to a checksum without interest
      rcases ReflTransGen.cases_tail hreach with heq | ⟨p, -, hedge⟩
      · subst heq
        rw [ht.cached c hne] at hc
        cases hc
      · exact ht.counted.no_edge hc p hedge

/-- An update that is marked keeps the cache coherent. -/
theorem UpdatedAt.markDirty_coherent {live : K → Prop} (h : UpdatedAt s t c live)
    (hs : s.Coherent) (ht : t.Consistent) : (t.markDirty c).Coherent where
  consistent := markDirty_consistent ht c
  costs x v hv := by
    obtain ⟨⟨hsame, hcached⟩, hmarked⟩ := markDirty_spec ht.counted c
    have hne : (t.markDirty c).costCache x ≠ none := by
      rw [hv]
      exact Option.some_ne_none v
    have hold := hcached x hne
    obtain ⟨hback, hlive⟩ := h.cached x (hold ▸ hne)
    have hcost : (t.markDirty c).cost x = t.cost x := by
      apply cost_congr
      intro y _
      rw [hsame]
      exact ⟨rfl, rfl, rfl, rfl, rfl⟩
    rw [hcost, h.cost_eq hlive]
    · apply hs.costs
      rw [← hback, ← hold]
      exact hv
    · exact fun hreach => hne (hmarked x hreach)

/-- Data of one checksum are new, and it is marked. -/
theorem updatedAt_of_same (h : s.Consistent) (hdeps : t.graph = s.graph)
    (hcache : t.costCache = s.costCache)
    (hagrees : ∀ x, x ≠ c → Agrees t s x) : UpdatedAt s t c fun x => s.isInteresting x = true where
  cached x hx := by
    rw [hcache] at hx
    rw [hcache]
    exact ⟨rfl, h.cached x hx⟩
  agrees x _ hne := hagrees x hne
  closed x y _ _ hedge := by
    unfold Depends at hedge
    rw [hdeps] at hedge
    exact h.depends_interesting hedge

/-! ## §3. `_ensure_cost`. -/

/-- A cache that holds costs only -/
def SoundCache (s : CostModule K) (cache : CostCache K) : Prop :=
  ∀ c v, cache c = some v → v = s.cost c

/-- The answer is the cost, and what is cached on the way is reached from the
checksum. -/
def Ensured (s : CostModule K) (c : K) (cache : CostCache K)
    (r : Option (Cost × CostCache K)) : Prop :=
  ∃ cache', r = some (s.cost c, cache') ∧ s.SoundCache cache' ∧
    ∀ x, cache' x ≠ none → cache x ≠ none ∨ ReflTransGen s.Depends c x

omit [DecidableEq K] in
theorem dependencyCost_spec (ensure : CostCache K → K → Option (Cost × CostCache K))
    (deps : List K) : ∀ (sum : Cost) (cache : CostCache K), s.SoundCache cache →
    (∀ d ∈ deps, ∀ cache, s.SoundCache cache → s.Ensured d cache (ensure cache d)) →
    ∃ cache', dependencyCost ensure deps sum cache =
        some (if (deps.map s.cost).sum = ⊤ then ⊤ else sum + (deps.map s.cost).sum, cache') ∧
      s.SoundCache cache' ∧
      ∀ x, cache' x ≠ none → cache x ≠ none ∨ ∃ d ∈ deps, ReflTransGen s.Depends d x := by
  induction deps with
  | nil =>
    intro sum cache hsound _
    refine ⟨cache, ?_, hsound, fun x hx => .inl hx⟩
    show some (sum, cache) = _
    have hzero : (([] : List K).map s.cost).sum = 0 := rfl
    rw [hzero, if_neg WithTop.zero_ne_top, add_zero]
  | cons d deps ih =>
    intro sum cache hsound hensure
    obtain ⟨cache', hrun, hsound', hgrown⟩ := hensure d List.mem_cons_self cache hsound
    have hreached : ∀ x, cache' x ≠ none →
        cache x ≠ none ∨ ∃ d' ∈ d :: deps, ReflTransGen s.Depends d' x := by
      intro x hx
      rcases hgrown x hx with hold | hreach
      · exact .inl hold
      · exact .inr ⟨d, List.mem_cons_self, hreach⟩
    unfold dependencyCost
    rw [hrun, List.map_cons, List.sum_cons]
    show ∃ cache'', (if s.cost d = ⊤ then some (⊤, cache')
      else dependencyCost ensure deps (sum + s.cost d) cache') = _ ∧ _
    -- the loop stops at the first infinite cost
    by_cases htop : s.cost d = ⊤
    · rw [if_pos htop, htop, top_add, if_pos rfl]
      exact ⟨cache', rfl, hsound', hreached⟩
    · rw [if_neg htop]
      obtain ⟨cache'', hrest, hsound'', hgrown'⟩ := ih (sum + s.cost d) cache' hsound'
        fun d' hd' => hensure d' (List.mem_cons_of_mem _ hd')
      refine ⟨cache'', ?_, hsound'', ?_⟩
      · rw [hrest, add_assoc]
        simp only [WithTop.add_eq_top, htop, false_or]
      · intro x hx
        rcases hgrown' x hx with hmid | ⟨d', hd', hreach⟩
        · exact hreached x hmid
        · exact .inr ⟨d', List.mem_cons_of_mem _ hd', hreach⟩

/-- The checksums being computed: each leads to the next one. -/
structure Computing (s : CostModule K) (computing : List K) (c : K) : Prop where
  above : ∀ x ∈ computing, TransGen s.Depends x c
  nodup : computing.Nodup
  keys : ∀ x ∈ computing, x ∈ s.graph.keys

omit [DecidableEq K] in
theorem Computing.below {computing : List K} (h : s.Computing computing c) (hc : c ∉ computing)
    (hd : s.Depends c d) : s.Computing (c :: computing) d where
  above x hx := by
    rcases List.mem_cons.mp hx with heq | hx
    · subst heq
      exact .single hd
    · exact (h.above x hx).tail hd
  nodup := List.nodup_cons.mpr ⟨hc, h.nodup⟩
  keys x hx := by
    rcases List.mem_cons.mp hx with heq | hx
    · subst heq
      exact (s.graph.mem_keys x).mpr (List.ne_nil_of_mem hd)
    · exact h.keys x hx

/-- Where as many checksums are being computed as there are keys, every key is. -/
theorem Computing.full {computing : List K} (h : s.Computing computing c)
    (hfull : s.graph.keys.card ≤ computing.length) (hd : d ∈ s.graph.keys) : d ∈ computing := by
  have hcard : computing.toFinset.card = computing.length := List.toFinset_card_of_nodup h.nodup
  have hsub : computing.toFinset ⊆ s.graph.keys :=
    fun x hx => h.keys x (List.mem_toFinset.mp hx)
  have heq := Finset.eq_of_subset_of_card_le hsub (by omega)
  rw [← List.mem_toFinset, heq]
  exact hd

/-- `_compute_cost` gives the cost when the calls below it do. -/
theorem computeCost_spec {ensure : Option (CostCache K → K → Option (Cost × CostCache K))}
    {computing : List K} {cache : CostCache K} (hcomputing : s.Computing computing c)
    (hsound : s.SoundCache cache)
    (hensure : c ∉ computing → s.graph.deps c ≠ [] → ∃ e, ensure = some e ∧
      ∀ d ∈ s.graph.deps c, ∀ cache, s.SoundCache cache → s.Ensured d cache (e cache d)) :
    s.Ensured c cache (s.computeCost ensure computing cache c) := by
  unfold computeCost
  -- a checksum whose cost is being computed is on a cycle
  by_cases hc : c ∈ computing
  · rw [if_pos hc]
    refine ⟨cache, ?_, hsound, fun x hx => .inl hx⟩
    rw [cost_reached .refl (.inr (hcomputing.above c hc))]
  · rw [if_neg hc]
    cases hlength : s.lengths c with
    | none =>
      refine ⟨cache, ?_, hsound, fun x hx => .inl hx⟩
      rw [cost_unknown hlength]
    | some length =>
      dsimp only
      by_cases hdeps : s.graph.deps c = []
      · rw [if_pos hdeps]
        refine ⟨cache, ?_, hsound, fun x hx => .inl hx⟩
        rw [cost_leaf hlength hdeps]
      · rw [if_neg hdeps]
        obtain ⟨e, he, hbelow⟩ := hensure hc hdeps
        obtain ⟨cache', hrun, hsound', hgrown⟩ :=
          dependencyCost_spec e (s.graph.deps c) 0 cache hsound hbelow
        refine ⟨cache', ?_, hsound', ?_⟩
        · rw [cost_node hlength hdeps, he]
          show (dependencyCost e (s.graph.deps c) 0 cache >>= fun r =>
            if r.1 = ⊤ then some (⊤, r.2) else some (s.combine c length (some r.1), r.2)) = _
          rw [hrun, zero_add]
          by_cases htop : ((s.graph.deps c).map s.cost).sum = ⊤
          · rw [if_pos htop, if_pos htop]
            rfl
          · rw [if_neg htop, if_neg htop]
            exact if_neg htop
        · intro x hx
          rcases hgrown x hx with hold | ⟨d, hd, hreach⟩
          · exact .inl hold
          · exact .inr (.head hd hreach)

theorem cacheCost_spec {compute : CostCache K → K → Option (Cost × CostCache K)}
    {cache : CostCache K} (hsound : s.SoundCache cache)
    (hcompute : s.Ensured c cache (compute cache c)) :
    s.Ensured c cache (cacheCost compute cache c) := by
  unfold cacheCost
  cases hcache : cache c with
  | some v =>
    refine ⟨cache, ?_, hsound, fun x hx => .inl hx⟩
    rw [hsound c v hcache]
  | none =>
    obtain ⟨cache', hrun, hsound', hgrown⟩ := hcompute
    dsimp only
    rw [hrun]
    refine ⟨Function.update cache' c (some (s.cost c)), rfl, ?_, ?_⟩
    · intro x v hv
      by_cases hxc : x = c
      · subst hxc
        rw [Function.update_self] at hv
        exact (Option.some.inj hv).symm
      · rw [Function.update_of_ne hxc] at hv
        exact hsound' x v hv
    · intro x hx
      by_cases hxc : x = c
      · subst hxc
        exact .inr .refl
      · rw [Function.update_of_ne hxc] at hx
        exact hgrown x hx

/-- `_ensure_cost` ends and gives the cost: no checksum is computed below
itself, so the fuel is not exhausted. -/
theorem ensureFuel_spec (fuel : Nat) : ∀ (computing : List K) (cache : CostCache K) (c : K),
    s.Computing computing c → s.graph.keys.card ≤ fuel + computing.length →
    s.SoundCache cache → s.Ensured c cache (s.ensureFuel fuel computing cache c) := by
  induction fuel with
  | zero =>
    intro computing cache c hcomputing hfuel hsound
    apply cacheCost_spec hsound
    apply computeCost_spec hcomputing hsound
    intro hc hdeps
    exact absurd (hcomputing.full (by omega) ((s.graph.mem_keys c).mpr hdeps)) hc
  | succ fuel ih =>
    intro computing cache c hcomputing hfuel hsound
    apply cacheCost_spec hsound
    apply computeCost_spec hcomputing hsound
    intro hc _
    refine ⟨_, rfl, fun d hd cache hcache => ?_⟩
    apply ih _ _ _ (hcomputing.below hc hd) _ hcache
    rw [List.length_cons]
    omega

/-- `_ensure_cost` of a coherent module -/
theorem ensureCost_spec (h : s.SoundCache s.costCache) (c : K) :
    (s.ensureCost c).1 = s.cost c ∧
      ∃ cache, (s.ensureCost c).2 = { s with costCache := cache } ∧ s.SoundCache cache ∧
        ∀ x, cache x ≠ none → s.costCache x ≠ none ∨ ReflTransGen s.Depends c x := by
  have hempty : s.Computing [] c :=
    ⟨fun x hx => absurd hx List.not_mem_nil, List.nodup_nil,
      fun x hx => absurd hx List.not_mem_nil⟩
  obtain ⟨cache, hrun, hsound, hgrown⟩ :=
    ensureFuel_spec s.graph.keys.card [] s.costCache c hempty (Nat.le_refl _) h
  unfold ensureCost
  rw [hrun]
  exact ⟨rfl, cache, rfl, hsound, hgrown⟩

/-! ## §4. Every call keeps the cache coherent. -/

theorem leaving_updatedAt (h : s.Consistent) (c : K) :
    UpdatedAt s ((s.leaving c).detach c) c
      fun x => ((s.leaving c).detach c).isInteresting x = true where
  cached x hx := by
    have hleaving := leaving_consistent h c
    have hinteresting := (detach_consistent hleaving c).cached x hx
    obtain ⟨hdone, hself⟩ := detach_spec hleaving c
    have hsame := (hdone.cached x hx).1
    refine ⟨?_, hinteresting⟩
    rw [hsame]
    rw [hsame] at hx
    have hx : Function.update s.costCache c none x ≠ none := hx
    show Function.update s.costCache c none x = s.costCache x
    by_cases hxc : x = c
    · rw [hxc, Function.update_self] at hx
      exact absurd rfl hx
    · exact Function.update_of_ne hxc _ _
  agrees x hx hne := by
    have hleaving := leaving_consistent h c
    have hdata := (detach_spec hleaving c).1.data
    have hnotlost : ¬ Lost (s.leaving c) c x := by
      intro hlost
      rw [(detach_lost hleaving hlost).2] at hx
      cases hx
    refine ⟨detach_kept hleaving hnotlost hne, ?_, ?_, ?_, ?_⟩
    · rw [hdata.lengths]
      rfl
    · rw [hdata.manualCosts]
      rfl
    · rw [hdata.checksumProfiles]
      rfl
    · rw [hdata.cpuSeconds]
      rfl
  closed x y _ _ hedge := (detach_consistent (leaving_consistent h c) c).depends_interesting hedge

/-- A checksum without interest of its own is not interesting once it has left. -/
theorem leaving_not_interesting (h : s.Consistent) (hcount : s.dependencyInterest c = 0) :
    ((s.leaving c).detach c).isInteresting c = false := by
  have hleaving := leaving_consistent h c
  obtain ⟨hdone, -⟩ := detach_spec hleaving c
  rw [not_isInteresting_iff]
  constructor
  · rw [hdone.data.directInterest]
    exact Function.update_self _ _ _
  · by_contra hne
    -- an edge to it would be an old one
    rw [hdone.counted.counts c] at hne
    obtain ⟨p, hp⟩ := inCount_pos.mp (Nat.pos_of_ne_zero hne)
    have hold : s.Depends p c := detach_depends hleaving hp
    have hpos := h.counted.pos hold
    omega

theorem registered_updatedAt (h : s.Consistent) (c : K) (deps : List K) :
    UpdatedAt s (s.registered c deps) c fun x => (s.detach c).isInteresting x = true := by
  obtain ⟨hdone, hself⟩ := detach_spec h c
  have hcache : (s.registered c deps).costCache = (s.detach c).costCache := by
    unfold registered
    split
    · rfl
    · rw [attachAll_eq]
  have hdeps : ∀ x, x ≠ c → (s.registered c deps).graph.deps x = (s.detach c).graph.deps x := by
    intro x hne
    unfold registered
    split
    · rfl
    · rw [attachAll_eq]
      exact deps_set_ne _ _ hne
  have hdata : SameData (s.detach c) (s.registered c deps) := by
    unfold registered
    split
    · exact .refl _
    · rw [attachAll_eq]
      exact ⟨rfl, rfl, rfl, rfl, rfl⟩
  constructor
  · intro x hx
    rw [hcache] at hx
    rw [hcache]
    exact ⟨(hdone.cached x hx).1, (detach_consistent h c).cached x hx⟩
  · intro x hx hne
    have hnotlost : ¬ Lost s c x := by
      intro hlost
      rw [(detach_lost h hlost).2] at hx
      cases hx
    refine ⟨(hdeps x hne).trans (detach_kept h hnotlost hne), ?_, ?_, ?_, ?_⟩
    · rw [hdata.lengths, hdone.data.lengths]
    · rw [hdata.manualCosts, hdone.data.manualCosts]
    · rw [hdata.checksumProfiles, hdone.data.checksumProfiles]
    · rw [hdata.cpuSeconds, hdone.data.cpuSeconds]
  · intro x y _ hne hedge
    unfold Depends at hedge
    rw [hdeps x hne] at hedge
    exact (detach_consistent h c).depends_interesting hedge

theorem registerDependencies_coherent (h : s.Coherent) (c : K) (deps : List K) :
    (s.registerDependencies c deps).Coherent := by
  have hupdated := registered_updatedAt h.consistent c deps
  have hconsistent := registered_consistent h.consistent c deps
  rw [registerDependencies_eq]
  cases hc : (s.registered c deps).isInteresting c with
  | true => exact hupdated.markDirty_coherent h hconsistent
  | false => exact hupdated.coherent h hconsistent hc

theorem setDirectInterest_coherent (h : s.Coherent) {n : Nat}
    (hn : 0 < n ∨ 0 < s.dependencyInterest c) : (s.setDirectInterest c n).Coherent where
  consistent := setDirectInterest_consistent h.consistent hn
  costs x v hv := by
    rw [h.costs x v hv]
    exact cost_congr fun _ _ => ⟨rfl, rfl, rfl, rfl, rfl⟩

theorem removeInterest_coherent (h : s.Coherent) (c : K) : (s.removeInterest c).Coherent := by
  rcases removeInterest_cases s c with ⟨heq, -⟩ | ⟨n, heq, -, hn⟩ | ⟨heq, -, hcount⟩
  · rw [heq]
    exact h
  · rw [heq]
    exact setDirectInterest_coherent h hn
  · rw [heq]
    exact (leaving_updatedAt h.consistent c).coherent h
      (detach_consistent (leaving_consistent h.consistent c) c)
      (leaving_not_interesting h.consistent hcount)

/-- `notify_length` changes nothing, or the length of this checksum. -/
theorem notifyLength_cases (s : CostModule K) (c : K) (length : Option Int) :
    s.notifyLength c length = (s, false) ∨
    ∃ n, s.notifyLength c length =
      ({ s with lengths := Function.update s.lengths c (some n) }, true) := by
  unfold notifyLength
  cases length with
  | none => exact .inl rfl
  | some length =>
    dsimp only
    split
    · exact .inl rfl
    · exact .inr ⟨_, rfl⟩

theorem registerBufferLength_coherent (h : s.Coherent) (c : K) (length : Option Int) :
    (s.registerBufferLength c length).Coherent := by
  have hconsistent := notifyLength_consistent h.consistent c length
  unfold registerBufferLength
  rcases notifyLength_cases s c length with heq | ⟨n, heq⟩
  · rw [heq]
    exact h
  · rw [heq] at hconsistent ⊢
    have hupdated : UpdatedAt s { s with lengths := Function.update s.lengths c (some n) } c
        fun x => s.isInteresting x = true := by
      apply updatedAt_of_same h.consistent
      · rfl
      · rfl
      · exact fun x hne => ⟨rfl, Function.update_of_ne hne _ _, rfl, rfl, rfl⟩
    dsimp only
    rw [Bool.true_and]
    split
    next => exact hupdated.markDirty_coherent h hconsistent
    next hc => exact hupdated.coherent h hconsistent (Bool.eq_false_of_not_eq_true hc)

/-- Data of one checksum are new, and it is marked. -/
theorem markDirty_of_same (h : s.Coherent) (hgraph : t.graph = s.graph)
    (hreverse : t.reverse = s.reverse) (hcount : t.dependencyInterest = s.dependencyInterest)
    (hdirect : t.directInterest = s.directInterest) (hcache : t.costCache = s.costCache)
    (hagrees : ∀ x, x ≠ c → Agrees t s x) : (t.markDirty c).Coherent :=
  (updatedAt_of_same h.consistent hgraph hcache hagrees).markDirty_coherent h
    (h.consistent.of_same hgraph hreverse hcount hdirect hcache)

theorem setDownloadProfile_coherent (h : s.Coherent) (c : K) (profile : String) :
    (s.setDownloadProfile c profile).Coherent :=
  markDirty_of_same h rfl rfl rfl rfl rfl fun _ hne =>
    ⟨rfl, rfl, rfl, Function.update_of_ne hne _ _, rfl⟩

theorem overrideDownloadCost_coherent (h : s.Coherent) (c : K) (cost : Cost) :
    (s.overrideDownloadCost c cost).Coherent :=
  markDirty_of_same h rfl rfl rfl rfl rfl fun _ hne =>
    ⟨rfl, rfl, Function.update_of_ne hne _ _, rfl, rfl⟩

theorem recordTransformationCost_coherent (h : s.Coherent) (c : K) (seconds : Option Cost) :
    (s.recordTransformationCost c seconds).Coherent :=
  markDirty_of_same h rfl rfl rfl rfl rfl fun _ hne =>
    ⟨rfl, rfl, rfl, rfl, Function.update_of_ne hne _ _⟩

theorem ensureCost_coherent (h : s.Coherent) (hc : s.isInteresting c = true) :
    (s.ensureCost c).2.Coherent := by
  obtain ⟨-, cache, heq, hsound, hgrown⟩ := ensureCost_spec h.costs c
  rw [heq]
  refine ⟨⟨?_, ?_⟩, ?_⟩
  · exact ⟨h.consistent.counted.counts, h.consistent.counted.linked, h.consistent.counted.known,
      h.consistent.counted.nodup⟩
  · intro x hx
    rcases hgrown x hx with hold | hreach
    · exact h.consistent.cached x hold
    · rcases ReflTransGen.cases_tail hreach with hself | ⟨p, -, hedge⟩
      · rw [hself]
        exact hc
      · exact h.consistent.depends_interesting hedge
  · intro x v hv
    rw [hsound x v hv]
    exact cost_congr fun _ _ => ⟨rfl, rfl, rfl, rfl, rfl⟩

theorem getCost_coherent (h : s.Coherent) (c : K) (length : Option Int) :
    (s.getCost c length).2.Coherent := by
  have hregistered := registerBufferLength_coherent h c length
  unfold getCost
  dsimp only
  split
  next hc => exact ensureCost_coherent hregistered hc
  next => exact hregistered

theorem initial_coherent : (initial : CostModule K).Coherent where
  consistent := initial_consistent
  costs _ _ hv := by cases hv

theorem step_coherent (h : s.Coherent) (op : Op K) : (s.step op).1.Coherent := by
  cases op with
  | addInterest c => exact setDirectInterest_coherent h (.inl (Nat.succ_pos _))
  | removeInterest c => exact removeInterest_coherent h c
  | registerDependencies c deps => exact registerDependencies_coherent h c deps
  | registerBufferLength c length => exact registerBufferLength_coherent h c length
  | setDownloadProfile c profile => exact setDownloadProfile_coherent h c profile
  | overrideDownloadCost c cost => exact overrideDownloadCost_coherent h c cost
  | recordTransformationCost c seconds => exact recordTransformationCost_coherent h c seconds
  | getCost c length => exact getCost_coherent h c length

theorem after_coherent (ops : List (Op K)) : (after ops).Coherent :=
  Run.exec_invariant step Coherent (fun _ op h => step_coherent h op) initial_coherent ops

/-! ## §5. Answers. -/

/-- What a recomputation from scratch gives: `_ensure_cost` with nothing cached -/
def recompute (s : CostModule K) (c : K) : Cost :=
  if s.isInteresting c then (ensureCost { s with costCache := fun _ => none } c).1 else ⊤

theorem recompute_eq (s : CostModule K) (c : K) :
    s.recompute c = if s.isInteresting c then s.cost c else ⊤ := by
  unfold recompute
  split
  · rw [(ensureCost_spec (s := { s with costCache := fun _ => none })
      (fun _ _ hv => by cases hv) c).1]
    exact cost_congr fun _ _ => ⟨rfl, rfl, rfl, rfl, rfl⟩
  · rfl

theorem markDirty_recompute (h : s.Consistent) (c d : K) :
    (s.markDirty c).recompute d = s.recompute d := by
  obtain ⟨⟨hsame, -⟩, -⟩ := markDirty_spec h.counted c
  rw [hsame]
  rfl

/-- The answer of `get_cost` is a recomputation. -/
theorem getCost_eq (h : s.Coherent) (c : K) (length : Option Int) :
    (s.getCost c length).1 = (s.notifyLength c length).1.recompute c := by
  have hregistered := registerBufferLength_coherent h c length
  have hrecompute : (s.registerBufferLength c length).recompute c =
      (s.notifyLength c length).1.recompute c := by
    unfold registerBufferLength
    dsimp only
    split
    · exact markDirty_recompute (notifyLength_consistent h.consistent c length) c c
    · rfl
  rw [← hrecompute, recompute_eq]
  unfold getCost
  dsimp only
  split
  · exact (ensureCost_spec hregistered.costs c).1
  · rfl

/-- In every reachable state counts and reverse sets are those of the current
dependencies, every release ends, and `get_cost` gives what a recomputation
from the current maps gives, which is infinite where a cycle or an unknown
length is reached. -/
theorem eviction_costs_coherent (ops : List (Op K)) :
    (∀ d, (after ops).dependencyInterest d =
      ∑ c ∈ (after ops).graph.keys, ((after ops).graph.deps c).count d) ∧
    (∀ c d, c ∈ (after ops).reverse d ↔ d ∈ (after ops).graph.deps c) ∧
    (∀ d, ((after ops).reverse d).Nodup) ∧
    (∀ c, (detachFuel (after ops).graph.keys.card (after ops) c).isSome ∧
      (detachFuel (after ops).graph.keys.card ((after ops).leaving c) c).isSome) ∧
    ∀ c length,
      ((after ops).getCost c length).1 = ((after ops).notifyLength c length).1.recompute c ∧
      ((after ops).notifyLength c length).1.recompute c =
        (if ((after ops).notifyLength c length).1.isInteresting c then
          ((after ops).notifyLength c length).1.cost c else ⊤) ∧
      ∀ d, ReflTransGen ((after ops).notifyLength c length).1.Depends c d →
        (((after ops).notifyLength c length).1.lengths d = none ∨
          TransGen ((after ops).notifyLength c length).1.Depends d d) →
        ((after ops).getCost c length).1 = ⊤ := by
  have h := after_coherent ops
  refine ⟨?_, ?_, ?_, ?_, ?_⟩
  · intro d
    exact h.consistent.counted.counts d
  · intro c d
    exact h.consistent.counted.mem_reverse
  · exact h.consistent.counted.nodup
  · intro c
    -- the loops of both calls end within the fuel
    obtain ⟨t, ht, -⟩ := detachFuel_ends h.consistent c
    obtain ⟨u, hu, -⟩ := detachFuel_ends (leaving_consistent h.consistent c) c
    have hu : detachFuel (after ops).graph.keys.card ((after ops).leaving c) c = some u := hu
    rw [ht, hu]
    exact ⟨rfl, rfl⟩
  · intro c length
    refine ⟨getCost_eq h c length, recompute_eq _ c, ?_⟩
    intro d hreach hbad
    rw [getCost_eq h c length, recompute_eq, cost_reached hreach hbad]
    exact ite_self _

end CostModule

end SeamlessCore.EvictionCost
