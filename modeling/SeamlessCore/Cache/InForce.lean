/-
  SeamlessCore.Cache.InForce — registered dependencies that stay in force.

  A registration detaches the old dependencies of a checksum before it
  attaches the new ones.  What only the old ones kept is released on the way,
  with its own dependencies, even if the new ones list it again.  Where no
  call cuts off a checksum that is needed afterwards, registered dependencies
  stay in force as long as they are needed.

  Main results:
    * `step_inForce` — what one call leaves in force;
    * `registered_stay_in_force` — every run, and a repeated registration;
    * `relisted_cut_off` — a repeated registration that drops dependencies.
-/
import SeamlessCore.Cache.Interest

namespace SeamlessCore.EvictionCost

open DepGraph Relation

variable {K : Type} [DecidableEq K]

namespace CostModule

variable {s t : CostModule K} {c d : K}

/-! ## §1. What was registered. -/

/-- The dependencies last registered, after one more call -/
def recordLast (last : K → List K) : Op K → K → List K
  | .registerDependencies c deps => Function.update last c deps
  | _ => last

/-- The dependencies last registered -/
def lastRegistered (ops : List (Op K)) : K → List K := ops.foldl recordLast fun _ => []

theorem lastRegistered_snoc (ops : List (Op K)) (op : Op K) :
    lastRegistered (ops ++ [op]) = recordLast (lastRegistered ops) op :=
  List.foldl_append ..

/-- Reached from a direct interest through what was last registered -/
def NeededBy (last : K → List K) (wanted : K → Prop) : K → Prop :=
  Reach (fun p y => y ∈ last p) wanted

/-- Needed after the calls -/
def Needed (ops : List (Op K)) : K → Prop := NeededBy (lastRegistered ops) (after ops).Wanted

/-- What was last registered for a checksum is in the map. -/
def InForce (ops : List (Op K)) (c : K) : Prop :=
  (after ops).graph.deps c = lastRegistered ops c

/-! ## §2. What a call cuts off. -/

/-- A checksum with dependencies that nothing but `c` keeps -/
def CutsOff (s : CostModule K) (c x : K) : Prop := s.graph.deps x ≠ [] ∧ Lost s c x

/-- The calls that cut off nothing that is needed afterwards -/
def SparesNeeded (s : CostModule K) (last : K → List K) : Op K → Prop
  | .registerDependencies c deps =>
    ∀ x, x ≠ c → s.CutsOff c x → ¬ NeededBy (Function.update last c deps) s.Wanted x
  | .removeInterest c =>
    s.directInterest c = 1 → s.dependencyInterest c = 0 →
      ∀ x, s.graph.deps x ≠ [] → x = c ∨ Lost (s.leaving c) c x →
        ¬ NeededBy last (s.leaving c).Wanted x
  | _ => True

theorem detach_deps (h : s.Consistent) {x : K} (hne : x ≠ c) :
    (s.detach c).graph.deps x = s.graph.deps x ↔ ¬ s.CutsOff c x := by
  constructor
  · rintro hsame ⟨hdeps, hlost⟩
    rw [(detach_lost h hlost).1] at hsame
    exact hdeps hsame.symm
  · intro hcuts
    by_cases hlost : Lost s c x
    · have hnil : s.graph.deps x = [] := by
        by_contra hdeps
        exact hcuts ⟨hdeps, hlost⟩
      rw [(detach_lost h hlost).1, hnil]
    · exact detach_kept h hlost hne

theorem registerDependencies_graph (h : s.Consistent) (c : K) (deps : List K) :
    (s.registerDependencies c deps).graph = (s.registered c deps).graph ∧
      (s.registerDependencies c deps).directInterest = s.directInterest := by
  have hdirect := registered_directInterest (c := c) h deps
  rw [registerDependencies_eq]
  split
  · rw [(markDirty_spec (registered_consistent h c deps).counted c).1.same]
    exact ⟨rfl, hdirect⟩
  · exact ⟨rfl, hdirect⟩

/-- A registration, for every checksum -/
theorem registerDependencies_deps (h : s.Consistent) (c : K) (deps : List K) :
    (s.registerDependencies c deps).graph.deps c = deps ∧
    ∀ x, x ≠ c → ((s.registerDependencies c deps).graph.deps x = s.graph.deps x ↔
      ¬ s.CutsOff c x) := by
  rw [(registerDependencies_graph h c deps).1]
  refine ⟨registered_deps_self h deps, fun x hne => ?_⟩
  rw [registered_deps_ne s deps hne]
  exact detach_deps h hne

theorem markDirty_graph (h : s.Consistent) (c : K) : (s.markDirty c).graph = s.graph := by
  rw [(markDirty_spec h.counted c).1.same]

theorem markDirty_graph_of_same (h : s.Consistent) (hgraph : t.graph = s.graph)
    (hreverse : t.reverse = s.reverse) (hcount : t.dependencyInterest = s.dependencyInterest)
    (hdirect : t.directInterest = s.directInterest) (hcache : t.costCache = s.costCache) (c : K) :
    (t.markDirty c).graph = s.graph :=
  (markDirty_graph (h.of_same hgraph hreverse hcount hdirect hcache) c).trans hgraph

theorem registerBufferLength_graph (h : s.Consistent) (c : K) (length : Option Int) :
    (s.registerBufferLength c length).graph = s.graph := by
  have hsame : (s.notifyLength c length).1.graph = s.graph := by
    rcases notifyLength_cases s c length with heq | ⟨n, heq⟩ <;> rw [heq]
  unfold registerBufferLength
  dsimp only
  split
  · rw [markDirty_graph (notifyLength_consistent h c length), hsame]
  · exact hsame

theorem getCost_graph (h : s.Coherent) (c : K) (length : Option Int) :
    (s.getCost c length).2.graph = s.graph := by
  have hregistered := registerBufferLength_graph h.consistent c length
  unfold getCost
  dsimp only
  split
  · obtain ⟨-, cache, heq, -⟩ :=
      ensureCost_spec (registerBufferLength_coherent h c length).costs c
    rw [heq]
    exact hregistered
  · exact hregistered

/-- What is in force before a call and needed after it is in force after it. -/
theorem step_inForce (h : s.Coherent) {last : K → List K} {op : Op K}
    (hspares : s.SparesNeeded last op) {x : K} (hforce : s.graph.deps x = last x)
    (hneeded : NeededBy (recordLast last op) (s.step op).1.Wanted x) :
    (s.step op).1.graph.deps x = recordLast last op x := by
  cases op with
  | registerDependencies c deps =>
    obtain ⟨hself, hother⟩ := registerDependencies_deps h.consistent c deps
    show (s.registerDependencies c deps).graph.deps x = Function.update last c deps x
    -- the new dependencies of `c` are in force at once; others stay unless they are cut off
    by_cases hxc : x = c
    · subst hxc
      rw [hself, Function.update_self]
    · rw [Function.update_of_ne hxc, ← hforce]
      apply (hother x hxc).mpr
      intro hcuts
      apply hspares x hxc hcuts
      refine hneeded.mono (fun y hy => ?_) fun _ _ hedge => hedge
      have hy : 0 < (s.registerDependencies c deps).directInterest y := hy
      rw [(registerDependencies_graph h.consistent c deps).2] at hy
      exact hy
  | removeInterest c =>
    show (s.removeInterest c).graph.deps x = last x
    have hneeded : NeededBy last (s.removeInterest c).Wanted x := hneeded
    rcases removeInterest_cases s c with ⟨heq, -⟩ | ⟨n, heq, -⟩ | ⟨heq, hone, hcount⟩
    · rw [heq]
      exact hforce
    · rw [heq]
      exact hforce
    · rw [heq] at hneeded ⊢
      have hleaving := leaving_consistent h.consistent c
      have hdirect := (detach_spec hleaving c).1.data.directInterest
      have hneeded : NeededBy last (s.leaving c).Wanted x := by
        refine hneeded.mono (fun y hy => ?_) fun _ _ hedge => hedge
        unfold Wanted at hy ⊢
        rw [← hdirect]
        exact hy
      -- with no dependencies there is nothing to lose
      by_cases hdeps : s.graph.deps x = []
      · rw [← hforce, hdeps]
        rcases (detach_spec hleaving c).1.kept x with hsame | ⟨hnil, -⟩
        · exact hsame.trans hdeps
        · exact hnil
      · have hsafe := hspares hone hcount x hdeps
        have hxc : x ≠ c := fun heq => hsafe (.inl heq) hneeded
        have hlost : ¬ Lost (s.leaving c) c x := fun hlost => hsafe (.inr hlost) hneeded
        rw [detach_kept hleaving hlost hxc]
        exact hforce
  | addInterest c => exact hforce
  | registerBufferLength c length =>
    show (s.registerBufferLength c length).graph.deps x = last x
    rw [registerBufferLength_graph h.consistent]
    exact hforce
  | setDownloadProfile c profile =>
    have hsame : (s.setDownloadProfile c profile).graph = s.graph := by
      unfold setDownloadProfile
      apply markDirty_graph_of_same h.consistent <;> rfl
    show (s.setDownloadProfile c profile).graph.deps x = last x
    rw [hsame]
    exact hforce
  | overrideDownloadCost c cost =>
    have hsame : (s.overrideDownloadCost c cost).graph = s.graph := by
      unfold overrideDownloadCost
      apply markDirty_graph_of_same h.consistent <;> rfl
    show (s.overrideDownloadCost c cost).graph.deps x = last x
    rw [hsame]
    exact hforce
  | recordTransformationCost c seconds =>
    have hsame : (s.recordTransformationCost c seconds).graph = s.graph := by
      unfold recordTransformationCost
      apply markDirty_graph_of_same h.consistent <;> rfl
    show (s.recordTransformationCost c seconds).graph.deps x = last x
    rw [hsame]
    exact hforce
  | getCost c length =>
    show (s.getCost c length).2.graph.deps x = last x
    rw [getCost_graph h]
    exact hforce

/-! ## §3. Every run. -/

theorem after_snoc (ops : List (Op K)) (op : Op K) :
    after (ops ++ [op]) = ((after ops).step op).1 := Run.exec_snoc step initial ops op

/-- Over a stretch of calls that all spare what is needed -/
theorem inForce_through (before : List (Op K)) (x : K) (hforce : InForce before x)
    (later : List (Op K))
    (hspares : ∀ mid op rest, later = mid ++ op :: rest →
      (after (before ++ mid)).SparesNeeded (lastRegistered (before ++ mid)) op)
    (hneeded : ∀ mid, mid <+: later → Needed (before ++ mid) x) :
    InForce (before ++ later) x := by
  -- on the last call, whose state the spared dependencies are judged in
  induction later using List.reverseRecOn with
  | nil =>
    rw [List.append_nil]
    exact hforce
  | append_singleton later op ih =>
    have hbefore : InForce (before ++ later) x := by
      apply ih
      · intro mid op' rest heq
        apply hspares mid op' (rest ++ [op])
        rw [heq]
        simp
      · exact fun mid hmid => hneeded mid (hmid.trans (List.prefix_append later [op]))
    have hlast := hneeded (later ++ [op]) (List.prefix_refl _)
    unfold Needed at hlast
    unfold InForce
    rw [← List.append_assoc, after_snoc, lastRegistered_snoc] at hlast ⊢
    exact step_inForce (after_coherent (before ++ later)) (hspares later op [] rfl) hbefore hlast

/-- Costs of modules with one graph and the same data are the same. -/
theorem getCost_same (hs : s.Coherent) (ht : t.Coherent) (hgraph : t.graph = s.graph)
    (hdata : SameData s t) (c : K) (length : Option Int) :
    (t.getCost c length).1 = (s.getCost c length).1 := by
  have hcount : t.dependencyInterest = s.dependencyInterest := by
    funext x
    rw [ht.consistent.counted.counts, hs.consistent.counted.counts, hgraph]
  rw [getCost_eq hs, getCost_eq ht, recompute_eq, recompute_eq]
  have hnotify : ∀ r : CostModule K, r.lengths = s.lengths →
      (r.notifyLength c length).1.lengths = (s.notifyLength c length).1.lengths ∧
      (r.notifyLength c length).1 = { r with lengths := (r.notifyLength c length).1.lengths } := by
    intro r hr
    unfold notifyLength
    cases length with
    | none => exact ⟨hr, rfl⟩
    | some length =>
      dsimp only
      rw [hr]
      split
      · exact ⟨hr, rfl⟩
      · exact ⟨rfl, rfl⟩
  obtain ⟨hlengths, htnotify⟩ := hnotify t hdata.lengths
  obtain ⟨-, hsnotify⟩ := hnotify s rfl
  have hinteresting : (t.notifyLength c length).1.isInteresting c =
      (s.notifyLength c length).1.isInteresting c := by
    rw [htnotify, hsnotify]
    unfold isInteresting totalInterest
    dsimp only
    rw [hdata.directInterest, hcount]
  -- costs are computed from the graph and the data only
  have hcost : (t.notifyLength c length).1.cost c = (s.notifyLength c length).1.cost c := by
    apply cost_congr
    intro x _
    constructor
    · rw [htnotify, hsnotify]
      show t.graph.deps x = s.graph.deps x
      rw [hgraph]
    · rw [hlengths]
    · rw [htnotify, hsnotify]
      exact congrFun hdata.manualCosts x
    · rw [htnotify, hsnotify]
      exact congrFun hdata.checksumProfiles x
    · rw [htnotify, hsnotify]
      exact congrFun hdata.cpuSeconds x
  rw [hinteresting, hcost]

theorem registerDependencies_sameData (h : s.Consistent) (c : K) (deps : List K) :
    SameData s (s.registerDependencies c deps) := by
  have hdetach := (detach_spec h c).1.data
  have hregistered : SameData s (s.registered c deps) := by
    unfold registered
    split
    · exact hdetach
    · rw [attachAll_eq]
      exact ⟨hdetach.1, hdetach.2, hdetach.3, hdetach.4, hdetach.5⟩
  rw [registerDependencies_eq]
  split
  · rw [(markDirty_spec (registered_consistent h c deps).counted c).1.same]
    exact ⟨hregistered.1, hregistered.2, hregistered.3, hregistered.4, hregistered.5⟩
  · exact hregistered

/-- The same dependencies once more change the map exactly when something with
dependencies is cut off. -/
theorem registered_again_graph (h : s.Consistent) (c : K) :
    (s.registerDependencies c (s.graph.deps c)).graph = s.graph ↔
      ∀ x, x ≠ c → ¬ s.CutsOff c x := by
  obtain ⟨hself, hother⟩ := registerDependencies_deps h c (s.graph.deps c)
  constructor
  · intro hsame x hne
    apply (hother x hne).mp
    rw [hsame]
  · intro hspares
    apply ext_deps
    funext x
    by_cases hxc : x = c
    · rw [hxc, hself]
    · exact (hother x hxc).mpr (hspares x hxc)

/-- Over calls that spare what is needed, registered dependencies stay in force
as long as they are needed; and the same dependencies once more change nothing
exactly when the old ones keep nothing alone that has dependencies. -/
theorem registered_stay_in_force (K : Type) [DecidableEq K] :
    (∀ (before later : List (Op K)) (x : K),
      (∀ mid op rest, later = mid ++ op :: rest →
        (after (before ++ mid)).SparesNeeded (lastRegistered (before ++ mid)) op) →
      InForce before x → (∀ mid, mid <+: later → Needed (before ++ mid) x) →
      InForce (before ++ later) x) ∧
    ∀ (ops : List (Op K)) (c : K),
      ((after (ops ++ [.registerDependencies c ((after ops).graph.deps c)])).graph =
          (after ops).graph ↔ ∀ x, x ≠ c → ¬ (after ops).CutsOff c x) ∧
      ((∀ x, x ≠ c → ¬ (after ops).CutsOff c x) → ∀ x length,
        ((after (ops ++ [.registerDependencies c ((after ops).graph.deps c)])).getCost x length).1 =
          ((after ops).getCost x length).1) := by
  refine ⟨?_, ?_⟩
  · intro before later x hspares hforce hneeded
    exact inForce_through before x hforce later hspares hneeded
  · intro ops c
    have h := after_coherent ops
    rw [after_snoc]
    refine ⟨registered_again_graph h.consistent c, ?_⟩
    intro hspares x length
    apply getCost_same h (step_coherent h _)
    · exact (registered_again_graph h.consistent c).mpr hspares
    · exact registerDependencies_sameData h.consistent c _

/-- Interest in `0`, which depends on `1`, which depends on `2`, which is
expensive -/
def provenance : List (Op Nat) :=
  [.addInterest 0, .registerDependencies 0 [1], .registerDependencies 1 [2],
    .registerBufferLength 0 (some 1), .registerBufferLength 1 (some 1),
    .registerBufferLength 2 (some 1), .overrideDownloadCost 2 5]

theorem provenance_needed (ops : List (Op Nat)) (hlast : 1 ∈ lastRegistered ops 0)
    (hwanted : 0 < (after ops).directInterest 0) : Needed ops 1 :=
  Reach.step (.of_root hwanted) hlast

/-- Dependencies of `2` are new, and those of `1` stay in force. -/
theorem provenance_stays :
    InForce ([.addInterest 0, .registerDependencies 0 [1], .registerDependencies 1 [2]] ++
      [.registerDependencies 2 [3]]) (1 : Nat) := by
  refine (registered_stay_in_force Nat).1 _ _ 1 ?_ (by unfold InForce; decide +kernel) ?_
  · intro mid op rest heq
    have hmid : mid = [] ∧ Op.registerDependencies 2 [3] = op := by
      cases mid with
      | nil => exact ⟨rfl, (List.cons.inj heq).1⟩
      | cons op' mid =>
        obtain ⟨-, htail⟩ := List.cons.inj heq
        simp at htail
    obtain ⟨rfl, rfl⟩ := hmid
    rintro x hne ⟨hdeps, hlost⟩
    exfalso
    -- both checksums with dependencies are reached from `0`
    apply hlost.not_reach
    have hroot : Reach (fun p y => CostModule.Depends (after [.addInterest 0,
        .registerDependencies 0 [1], .registerDependencies 1 [2]]) p y ∧ ¬ p = 2)
        (CostModule.Wanted (after [.addInterest 0, .registerDependencies 0 [1],
          .registerDependencies 1 [2]])) 0 := .of_root (by unfold Wanted; decide +kernel)
    by_cases hzero : x = 0
    · rw [hzero]
      exact hroot
    · by_cases hone : x = 1
      · rw [hone]
        exact hroot.step ⟨by unfold Depends; decide +kernel, by decide⟩
      · have hnil : Function.update (Function.update (fun _ => []) 0 [1]) 1 [2] x = [] := by
          rw [Function.update_of_ne hone, Function.update_of_ne hzero]
        exact absurd hnil hdeps
  · intro mid hmid
    rcases List.prefix_cons_iff.mp hmid with hnil | ⟨rest, heq, hrest⟩
    · subst hnil
      exact provenance_needed _ (by decide +kernel) (by decide +kernel)
    · obtain rfl := List.prefix_nil.mp hrest
      subst heq
      exact provenance_needed _ (by decide +kernel) (by decide +kernel)

/-- The same dependencies of `0` once more drop those of `1`, which is needed
throughout, and the cost of `0` falls. -/
theorem relisted_cut_off :
    (after provenance).graph.deps 0 = [1] ∧ InForce provenance 1 ∧ Needed provenance 1 ∧
      Needed (provenance ++ [.registerDependencies 0 [1]]) 1 ∧
      ¬ InForce (provenance ++ [.registerDependencies 0 [1]]) 1 ∧
      ((after provenance).getCost 0 none).1 = 5 ∧
      ((after (provenance ++ [.registerDependencies 0 [1]])).getCost 0 none).1 ≠ 5 := by
  refine ⟨by decide +kernel, by unfold InForce; decide +kernel, ?_, ?_, ?_, by decide +kernel,
    by decide +kernel⟩
  · exact provenance_needed _ (by decide +kernel) (by decide +kernel)
  · exact provenance_needed _ (by decide +kernel) (by decide +kernel)
  · unfold InForce
    decide +kernel

end CostModule

end SeamlessCore.EvictionCost
