/-
  SeamlessCore.Cache.Interest — interest and reachability.

  A checksum should be interesting exactly when it is upstream of a direct
  interest.  Counts on edges say so as long as everything that has
  dependencies is itself reachable.  Two things spoil that: dependencies that
  are registered for a checksum nobody is interested in, and a cycle that
  loses its last way in.  Where neither happens, the invariant carries over
  every call.

  Main results:
    * `registerDependencies_rooted`, `removeInterest_rooted` — the steps;
    * `interesting_iff_reachable` — the property over every such run;
    * `cycle_stays_interesting` — a cycle that loses its last way in.
-/
import SeamlessCore.Cache.Costs

namespace SeamlessCore.EvictionCost

open DepGraph Relation

variable {K : Type} [DecidableEq K]

namespace CostModule

variable {s t : CostModule K} {c d : K}

/-! ## §1. Reachability. -/

/-- Direct interest, or upstream of a checksum with direct interest -/
def Upstream (s : CostModule K) : K → Prop := Reach s.Depends s.Wanted

/-- Whatever has dependencies is upstream of a direct interest. -/
structure Rooted (s : CostModule K) : Prop where
  consistent : s.Consistent
  upstream : ∀ c, s.graph.deps c ≠ [] → s.Upstream c

theorem Rooted.interesting_iff (h : s.Rooted) (c : K) :
    s.isInteresting c = true ↔ s.Upstream c := by
  constructor
  · intro hc
    rcases isInteresting_iff.mp hc with hdirect | hcount
    · exact .of_root hdirect
    · rw [h.consistent.counted.counts c] at hcount
      obtain ⟨p, hp⟩ := inCount_pos.mp hcount
      exact (h.upstream p (List.ne_nil_of_mem hp)).step hp
  · intro hc
    rcases hc.cases with hroot | ⟨p, -, hedge⟩
    · exact isInteresting_iff.mpr (.inl hroot)
    · exact h.consistent.depends_interesting hedge

/-- Without direct interest nothing is left. -/
theorem Rooted.empty (h : s.Rooted) (hnone : ∀ c, s.directInterest c = 0) (c : K) :
    s.isInteresting c = false ∧ s.graph.deps c = [] ∧ s.reverse c = [] ∧
      s.costCache c = none := by
  have hunreached : ∀ x, ¬ s.Upstream x := by
    rintro x ⟨r, hr, -⟩
    unfold Wanted at hr
    rw [hnone r] at hr
    omega
  have hinteresting : s.isInteresting c = false := by
    apply Bool.eq_false_of_not_eq_true
    exact fun hc => hunreached c ((h.interesting_iff c).mp hc)
  have hdeps : ∀ x, s.graph.deps x = [] := by
    intro x
    by_contra hne
    exact hunreached x (h.upstream x hne)
  refine ⟨hinteresting, hdeps c, ?_, ?_⟩
  · apply List.eq_nil_iff_forall_not_mem.mpr
    intro p hp
    have hedge := h.consistent.counted.mem_reverse.mp hp
    unfold Depends at hedge
    rw [hdeps p] at hedge
    exact List.not_mem_nil hedge
  · by_contra hne
    rw [h.consistent.cached c hne] at hinteresting
    cases hinteresting

/-! ## §2. What stays. -/

/-- The edges that stay when those of `c` are detached -/
def Stays (s : CostModule K) (c x y : K) : Prop := s.Depends x y ∧ x ≠ c ∧ ¬ Lost s c x

omit [DecidableEq K] in
/-- What is reached without the edges of `c` is not lost. -/
theorem not_lost_of_reach {root : K → Prop} (hroot : ∀ x, root x → s.Wanted x) {x : K}
    (hx : Reach (s.Stays c) root x) : ¬ Lost s c x := by
  intro hlost
  apply hlost.not_reach
  exact hx.mono hroot fun _ _ h => ⟨h.1, h.2.1⟩

omit [DecidableEq K] in
/-- The way to a checksum, or up to `c`, stays. -/
theorem reach_stays {x : K} (hx : s.Upstream x) :
    Reach (s.Stays c) s.Wanted x ∨ Reach (s.Stays c) s.Wanted c := by
  apply hx.ind
  · exact fun r hr => .inl (.of_root hr)
  · intro a b _ ha hab
    rcases ha with ha | hc
    · by_cases hac : a = c
      · exact .inr (hac ▸ ha)
      · exact .inl (ha.step ⟨hab, hac, not_lost_of_reach (fun _ h => h) ha⟩)
    · exact .inr hc

/-- Wanted, or depended on by something -/
def Supported (s : CostModule K) (x : K) : Prop := s.Wanted x ∨ ∃ p, s.Depends p x

omit [DecidableEq K] in
theorem Upstream.supported {x : K} (hx : s.Upstream x) : s.Supported x := by
  rcases hx.cases with hroot | ⟨p, -, hp⟩
  · exact .inl hroot
  · exact .inr ⟨p, hp⟩

omit [DecidableEq K] in
/-- What is not lost is wanted or led to by an edge that stays. -/
theorem pred_of_not_lost {x : K} (hx : s.Supported x) (hlost : ¬ Lost s c x) :
    s.Wanted x ∨ ∃ p, s.Stays c p x := by
  rcases hx with hwanted | hedge
  · exact .inl hwanted
  · by_contra hnone
    push Not at hnone
    apply hlost
    refine .intro x hnone.1 hedge fun p hp hpc => ?_
    by_contra hpl
    exact hnone.2 p ⟨hp, hpc, hpl⟩

omit [DecidableEq K] in
theorem finite_of_deps {S : Set K} (hS : ∀ x ∈ S, s.graph.deps x ≠ []) : S.Finite :=
  s.graph.keys.finite_toSet.subset fun x hx => (s.graph.mem_keys x).mpr (hS x hx)

omit [DecidableEq K] in
/-- After `c` is detached, what still has dependencies is reached from the
roots when the cycles are. -/
theorem reach_of_stays (hs : ∀ x, s.graph.deps x ≠ [] → x ≠ c → s.Supported x)
    {root : K → Prop} (hroot : ∀ x, s.Wanted x → root x)
    (hcycles : ∀ x, TransGen (s.Stays c) x x → Reach (s.Stays c) root x)
    {x : K} (hdeps : s.graph.deps x ≠ []) (hne : x ≠ c) (hlost : ¬ Lost s c x) :
    Reach (s.Stays c) root x := by
  let S : Set K := {x | s.graph.deps x ≠ [] ∧ x ≠ c ∧ ¬ Lost s c x}
  have hfinite : S.Finite := finite_of_deps (s := s) fun x hx => hx.1
  refine reach_of_cycles hfinite ?_ hcycles x ⟨hdeps, hne, hlost⟩
  rintro x ⟨hdeps, hne, hlost⟩
  rcases pred_of_not_lost (hs x hdeps hne) hlost with hwanted | ⟨p, hp⟩
  · exact .inl (hroot x hwanted)
  · exact .inr ⟨p, ⟨List.ne_nil_of_mem hp.1, hp.2⟩, hp⟩

/-! ## §3. The steps. -/

/-- The calls that keep interest at what is upstream: dependencies are
registered for interesting checksums only, and no cycle loses its last way in
from a direct interest. -/
def KeepsInterest (s : CostModule K) : Op K → Prop
  | .registerDependencies c deps =>
    (deps = [] ∨ s.isInteresting c = true) ∧
    ∀ x, TransGen (s.Stays c) x x → Reach (s.Stays c) (fun y => s.Wanted y ∨ y ∈ deps) x
  | .removeInterest c =>
    s.directInterest c = 1 →
      ∀ x, TransGen s.Depends x x → Reach s.Depends (fun y => s.Wanted y ∧ y ≠ c) x
  | _ => True

theorem Rooted.of_same (h : s.Rooted) (ht : t.Consistent) (hgraph : t.graph = s.graph)
    (hwanted : ∀ x, s.Wanted x → t.Wanted x) : t.Rooted where
  consistent := ht
  upstream x hx := by
    rw [hgraph] at hx
    refine (h.upstream x hx).mono hwanted fun _ _ hedge => ?_
    unfold Depends at hedge ⊢
    rw [hgraph]
    exact hedge

theorem Trimmed.rooted (h : Trimmed s t) (hs : s.Rooted) : t.Rooted := by
  refine hs.of_same (h.consistent hs.consistent) ?_ ?_
  · rw [h.same]
  · rw [h.same]
    exact fun _ hx => hx

theorem registered_deps_ne (s : CostModule K) {x : K} (deps : List K) (hne : x ≠ c) :
    (s.registered c deps).graph.deps x = (s.detach c).graph.deps x := by
  unfold registered
  split
  · rfl
  · rw [attachAll_eq]
    exact deps_set_ne _ _ hne

theorem registered_deps_self (h : s.Consistent) (deps : List K) :
    (s.registered c deps).graph.deps c = deps := by
  unfold registered
  split
  next hnil => rw [(detach_spec h c).2, hnil]
  next =>
    rw [attachAll_eq]
    exact deps_set_self _ _ _

theorem registered_directInterest (h : s.Consistent) (deps : List K) :
    (s.registered c deps).directInterest = s.directInterest := by
  unfold registered
  split
  · exact (detach_spec h c).1.data.directInterest
  · rw [attachAll_eq]
    exact (detach_spec h c).1.data.directInterest

theorem registered_rooted (h : s.Rooted) {deps : List K}
    (hkeeps : s.KeepsInterest (.registerDependencies c deps)) : (s.registered c deps).Rooted := by
  obtain ⟨hinteresting, hcycles⟩ := hkeeps
  have hwanted : ∀ x, s.Wanted x → (s.registered c deps).Wanted x := by
    intro x hx
    unfold Wanted
    rw [registered_directInterest h.consistent]
    exact hx
  have hstays : ∀ x y, s.Stays c x y → (s.registered c deps).Depends x y := by
    rintro x y ⟨hedge, hne, hlost⟩
    unfold Depends
    rw [registered_deps_ne s deps hne, detach_kept h.consistent hlost hne]
    exact hedge
  -- the way to `c` does not use its edges
  have hself : deps ≠ [] → (s.registered c deps).Upstream c := by
    intro hne
    have hc : s.isInteresting c = true := hinteresting.resolve_left hne
    rcases reach_stays (c := c) ((h.interesting_iff c).mp hc) with hreach | hreach
    · exact hreach.mono hwanted hstays
    · exact hreach.mono hwanted hstays
  refine ⟨registered_consistent h.consistent c deps, fun x hx => ?_⟩
  by_cases hxc : x = c
  · subst hxc
    rw [registered_deps_self h.consistent] at hx
    exact hself hx
  · rw [registered_deps_ne s deps hxc] at hx
    have hlost : ¬ Lost s c x := fun hlost => hx (detach_lost h.consistent hlost).1
    rw [detach_kept h.consistent hlost hxc] at hx
    have hreach := reach_of_stays (fun y hy _ => (h.upstream y hy).supported)
      (fun y hy => .inl hy) hcycles hx hxc hlost
    apply hreach.ind
    · intro r hr
      rcases hr with hr | hr
      · exact .of_root (hwanted r hr)
      · refine (hself (List.ne_nil_of_mem hr)).step ?_
        unfold Depends
        rw [registered_deps_self h.consistent]
        exact hr
    · exact fun a b _ ha hab => ha.step (hstays a b hab)

theorem registerDependencies_rooted (h : s.Rooted) {deps : List K}
    (hkeeps : s.KeepsInterest (.registerDependencies c deps)) :
    (s.registerDependencies c deps).Rooted := by
  have hregistered := registered_rooted h hkeeps
  rw [registerDependencies_eq]
  split
  · exact (markDirty_spec hregistered.consistent.counted c).1.rooted hregistered
  · exact hregistered

/-- The count of a direct interest falls, and edges still lead to the checksum
or other direct interest is left. -/
theorem setDirectInterest_rooted (h : s.Rooted) {n : Nat} (hn : s.directInterest c = n + 1)
    (hleft : 0 < n ∨ 0 < s.dependencyInterest c)
    (hkeeps : s.KeepsInterest (.removeInterest c)) : (s.setDirectInterest c n).Rooted := by
  have hconsistent := setDirectInterest_consistent h.consistent hleft
  have hother : ∀ x, s.Wanted x ∧ x ≠ c → (s.setDirectInterest c n).Wanted x := by
    rintro x ⟨hx, hne⟩
    show 0 < Function.update s.directInterest c n x
    rw [Function.update_of_ne hne]
    exact hx
  by_cases hzero : n = 0
  · subst hzero
    refine ⟨hconsistent, fun x hx => ?_⟩
    let S : Set K := {x | s.graph.deps x ≠ []}
    have hfinite : S.Finite := finite_of_deps (s := s) fun x hx => hx
    have hreach : Reach s.Depends (fun y => s.Wanted y ∧ y ≠ c) x := by
      refine reach_of_cycles hfinite ?_ (hkeeps hn) x hx
      intro y hy
      have hpred : y = c → ∃ p ∈ S, s.Depends p y := by
        intro hyc
        subst hyc
        have hcount : 0 < s.dependencyInterest y := hleft.resolve_left (Nat.lt_irrefl 0)
        rw [h.consistent.counted.counts y] at hcount
        obtain ⟨p, hp⟩ := inCount_pos.mp hcount
        exact ⟨p, List.ne_nil_of_mem hp, hp⟩
      by_cases hyc : y = c
      · exact .inr (hpred hyc)
      · rcases (h.upstream y hy).cases with hroot | ⟨p, -, hp⟩
        · exact .inl ⟨hroot, hyc⟩
        · exact .inr ⟨p, List.ne_nil_of_mem hp, hp⟩
    exact hreach.mono hother fun _ _ hedge => hedge
  · refine h.of_same hconsistent rfl fun x hx => ?_
    show 0 < Function.update s.directInterest c n x
    by_cases hxc : x = c
    · rw [hxc, Function.update_self]
      omega
    · rw [Function.update_of_ne hxc]
      exact hx

/-- The last interest goes, and the checksum leaves. -/
theorem leaving_rooted (h : s.Rooted) (hone : s.directInterest c = 1)
    (hcount : s.dependencyInterest c = 0) (hkeeps : s.KeepsInterest (.removeInterest c)) :
    ((s.leaving c).detach c).Rooted := by
  have hleaving := leaving_consistent h.consistent c
  have hnone : ∀ p, ¬ s.Depends p c := by
    intro p hp
    have hpos := h.consistent.counted.pos hp
    omega
  have hwanted : ∀ x, (s.leaving c).Wanted x ↔ s.Wanted x ∧ x ≠ c := by
    intro x
    show 0 < Function.update s.directInterest c 0 x ↔ 0 < s.directInterest x ∧ x ≠ c
    by_cases hxc : x = c
    · rw [hxc, Function.update_self]
      simp
    · rw [Function.update_of_ne hxc]
      simp [hxc]
  -- what other roots reach does not pass `c`, and is not lost with it
  have hstep : ∀ x, Reach s.Depends (fun y => s.Wanted y ∧ y ≠ c) x →
      Reach ((s.leaving c).Stays c) (s.leaving c).Wanted x := by
    intro x hx
    apply hx.ind
    · exact fun r hr => .of_root ((hwanted r).mpr hr)
    · intro a b hreach ha hab
      have hac : a ≠ c := by
        rcases hreach.cases with hroot | ⟨p, -, hp⟩
        · exact hroot.2
        · exact fun heq => hnone p (heq ▸ hp)
      exact ha.step ⟨hab, hac, not_lost_of_reach (fun _ h => h) ha⟩
  have hdone := (detach_spec hleaving c).1
  refine ⟨detach_consistent hleaving c, fun x hx => ?_⟩
  have hxc : x ≠ c := by
    intro heq
    rw [heq] at hx
    exact hx (detach_spec hleaving c).2
  have hlost : ¬ Lost (s.leaving c) c x := fun hlost => hx (detach_lost hleaving hlost).1
  rw [detach_kept hleaving hlost hxc] at hx
  have hreach : Reach ((s.leaving c).Stays c) (s.leaving c).Wanted x := by
    refine reach_of_stays ?_ (fun _ hy => hy) ?_ hx hxc hlost
    · intro y hy hne
      rcases (h.upstream y hy).supported with hroot | hedge
      · exact .inl ((hwanted y).mpr ⟨hroot, hne⟩)
      · exact .inr hedge
    · -- a cycle that stays is reached from elsewhere, as the condition says
      intro y hcycle
      exact hstep y (hkeeps hone y (hcycle.lift (fun z => z) fun _ _ hedge => hedge.1))
  refine hreach.mono ?_ ?_
  · intro y hy
    unfold Wanted
    rw [hdone.data.directInterest]
    exact hy
  · rintro y z ⟨hedge, hne, hnot⟩
    unfold Depends
    rw [detach_kept hleaving hnot hne]
    exact hedge

theorem removeInterest_rooted (h : s.Rooted) (hkeeps : s.KeepsInterest (.removeInterest c)) :
    (s.removeInterest c).Rooted := by
  rcases removeInterest_cases s c with ⟨heq, -⟩ | ⟨n, heq, hn, hleft⟩ | ⟨heq, hone, hcount⟩
  · rw [heq]
    exact h
  · rw [heq]
    exact setDirectInterest_rooted h hn hleft hkeeps
  · rw [heq]
    exact leaving_rooted h hone hcount hkeeps

theorem registerBufferLength_rooted (h : s.Rooted) (c : K) (length : Option Int) :
    (s.registerBufferLength c length).Rooted := by
  have hnotify : (s.notifyLength c length).1.Rooted := by
    have hconsistent := notifyLength_consistent h.consistent c length
    rcases notifyLength_cases s c length with heq | ⟨n, heq⟩
    · rw [heq]
      exact h
    · rw [heq] at hconsistent ⊢
      exact h.of_same hconsistent rfl fun _ hx => hx
  unfold registerBufferLength
  dsimp only
  split
  · exact (markDirty_spec hnotify.consistent.counted c).1.rooted hnotify
  · exact hnotify

theorem getCost_rooted (h : s.Rooted) (hcoherent : s.Coherent) (c : K) (length : Option Int) :
    (s.getCost c length).2.Rooted := by
  have hregistered := registerBufferLength_rooted h c length
  have hconsistent := (getCost_coherent hcoherent c length).consistent
  unfold getCost at hconsistent ⊢
  dsimp only at hconsistent ⊢
  split
  next hc =>
    rw [if_pos hc] at hconsistent
    obtain ⟨-, cache, heq, -⟩ :=
      ensureCost_spec (registerBufferLength_coherent hcoherent c length).costs c
    rw [heq] at hconsistent ⊢
    exact hregistered.of_same hconsistent rfl fun _ hx => hx
  next => exact hregistered

/-- New data of a checksum, marked -/
theorem markDirty_rooted (h : s.Rooted) (ht : t.Consistent) (hgraph : t.graph = s.graph)
    (hdirect : t.directInterest = s.directInterest) : (t.markDirty c).Rooted := by
  have hrooted : t.Rooted := by
    refine h.of_same ht hgraph fun x hx => ?_
    unfold Wanted
    rw [hdirect]
    exact hx
  exact (markDirty_spec ht.counted c).1.rooted hrooted

theorem step_rooted (h : s.Rooted) (hcoherent : s.Coherent) (op : Op K)
    (hkeeps : s.KeepsInterest op) : (s.step op).1.Rooted := by
  cases op with
  | addInterest c =>
    refine h.of_same (setDirectInterest_consistent h.consistent (.inl (Nat.succ_pos _))) rfl ?_
    intro x hx
    show 0 < Function.update s.directInterest c _ x
    by_cases hxc : x = c
    · rw [hxc, Function.update_self]
      omega
    · rw [Function.update_of_ne hxc]
      exact hx
  | removeInterest c => exact removeInterest_rooted h hkeeps
  | registerDependencies c deps => exact registerDependencies_rooted h hkeeps
  | registerBufferLength c length => exact registerBufferLength_rooted h c length
  | setDownloadProfile c profile =>
    exact markDirty_rooted h (h.consistent.of_same rfl rfl rfl rfl rfl) rfl rfl
  | overrideDownloadCost c cost =>
    exact markDirty_rooted h (h.consistent.of_same rfl rfl rfl rfl rfl) rfl rfl
  | recordTransformationCost c seconds =>
    exact markDirty_rooted h (h.consistent.of_same rfl rfl rfl rfl rfl) rfl rfl
  | getCost c length => exact getCost_rooted h hcoherent c length

/-! ## §4. Every run. -/

theorem initial_rooted : (initial : CostModule K).Rooted where
  consistent := initial_consistent
  upstream _ hx := absurd rfl hx

theorem after_rooted (ops : List (Op K))
    (hkeeps : Run.StepsMeet step (fun _ s op => s.KeepsInterest op) initial ops) :
    (after ops).Rooted := by
  have h := Run.exec_traced_invariant step (fun _ s op => s.KeepsInterest op)
    (fun _ s => s.Rooted ∧ s.Coherent) ⟨initial_rooted, initial_coherent⟩
    (fun _ s op hs hop => ⟨step_rooted hs.1 hs.2 op hop, step_coherent hs.2 op⟩) ops hkeeps
  exact h.1

/-- In every run that keeps interest at what is upstream, interest is
reachability from direct interest, and without direct interest nothing is
left. -/
theorem interesting_iff_reachable (ops : List (Op K))
    (hkeeps : Run.StepsMeet step (fun _ s op => s.KeepsInterest op) initial ops) :
    (∀ c, (after ops).isInteresting c = true ↔
      ∃ r, 0 < (after ops).directInterest r ∧
        ReflTransGen (fun x y => y ∈ (after ops).graph.deps x) r c) ∧
    ((∀ c, (after ops).directInterest c = 0) →
      ∀ c, (after ops).isInteresting c = false ∧ (after ops).graph.deps c = [] ∧
        (after ops).reverse c = [] ∧ (after ops).costCache c = none) :=
  ⟨(after_rooted ops hkeeps).interesting_iff, (after_rooted ops hkeeps).empty⟩

/-- Interest in `0`, which depends on `1` -/
def chain : List (Op Nat) := [.addInterest 0, .registerDependencies 0 [1], .removeInterest 0]

theorem chain_keeps : Run.StepsMeet step (fun _ s op => s.KeepsInterest op) initial chain := by
  have hfirst := (Run.StepsMeet.nil step (fun _ s op => s.KeepsInterest op)
    (initial : CostModule Nat)).snoc step (i := .addInterest 0) trivial
  have hsecond : (after [.addInterest 0]).KeepsInterest (.registerDependencies 0 [1]) := by
    refine ⟨.inr (by decide), fun x hcycle => ?_⟩
    rcases TransGen.head'_iff.mp hcycle with ⟨y, hy, -⟩
    exact absurd hy.1 List.not_mem_nil
  have hthird : (after [.addInterest 0, .registerDependencies 0 [1]]).KeepsInterest
      (.removeInterest 0) := by
    intro _ x hcycle
    have hdeps : ∀ y z, (after [.addInterest 0, .registerDependencies 0 [1]]).Depends y z →
        y = 0 ∧ z = 1 := by
      intro y z hz
      have hz : z ∈ Function.update (fun _ => []) 0 [1] y := hz
      by_cases hy : y = 0
      · rw [hy, Function.update_self] at hz
        exact ⟨hy, List.mem_singleton.mp hz⟩
      · rw [Function.update_of_ne hy] at hz
        exact absurd hz List.not_mem_nil
    rcases TransGen.head'_iff.mp hcycle with ⟨y, hy, -⟩
    rcases TransGen.tail'_iff.mp hcycle with ⟨z, -, hz⟩
    have hzero := (hdeps x y hy).1
    have hone := (hdeps z x hz).2
    omega
  exact (hfirst.snoc step (i := .registerDependencies 0 [1]) hsecond).snoc step
    (i := .removeInterest 0) hthird

/-- Interest comes and goes with a chain. -/
theorem chain_interest :
    (after chain).isInteresting 1 = true ↔
      ∃ r, 0 < (after chain).directInterest r ∧
        ReflTransGen (fun x y => y ∈ (after chain).graph.deps x) r 1 :=
  (interesting_iff_reachable chain chain_keeps).1 1

/-- Interest in `0`, which depends on `1`, which depends on `0` -/
def cycle : List (Op Nat) :=
  [.addInterest 0, .registerDependencies 0 [1], .registerDependencies 1 [0], .removeInterest 0]

/-- A cycle that was once of interest stays so, and keeps its maps. -/
theorem cycle_stays_interesting :
    (∀ r, (after cycle).directInterest r = 0) ∧ (after cycle).isInteresting 0 = true ∧
      (after cycle).isInteresting 1 = true ∧ (after cycle).graph.deps 0 = [1] ∧
      (after cycle).reverse 0 = [1] ∧
      ¬ ∀ c, (after cycle).isInteresting c = true ↔
        ∃ r, 0 < (after cycle).directInterest r ∧
          ReflTransGen (fun x y => y ∈ (after cycle).graph.deps x) r c := by
  have hnone : ∀ r, (after cycle).directInterest r = 0 := by
    intro r
    show Function.update (Function.update (fun _ => 0) 0 1) 0 0 r = 0
    by_cases hr : r = 0
    · rw [hr, Function.update_self]
    · rw [Function.update_of_ne hr, Function.update_of_ne hr]
  have hinteresting : (after cycle).isInteresting 0 = true := by decide
  refine ⟨hnone, hinteresting, by decide, by decide, by decide, fun h => ?_⟩
  obtain ⟨r, hr, -⟩ := (h 0).mp hinteresting
  rw [hnone r] at hr
  omega

end CostModule

end SeamlessCore.EvictionCost
