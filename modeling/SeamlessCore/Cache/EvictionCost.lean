/-
  SeamlessCore.Cache.EvictionCost — the eviction cost module.

  The module counts who is interested in a checksum: the strong cache
  directly, and every checksum that is registered to depend on it.  What
  nobody is interested in is released, with its dependencies.  Costs are
  computed on request and cached until something upstream changes.

  Main definitions:
    * `CostModule` — the maps of the module and of its subsystems;
    * `detachFuel`, `markLoop`, `ensureFuel` — the recursions, cut off where
      the fuel ends;
    * `CostModule.step` — the functions of the module.

  Source: `seamless/caching/eviction_cost.py`.
-/
import SeamlessCore.Lib.DepGraph
import SeamlessCore.Lib.Run

namespace SeamlessCore.EvictionCost

/-! ## §1. Costs. -/

/-- An exact cost, or infinity. -/
abbrev Cost := WithTop ℚ≥0

/-- `CostProfile` -/
structure CostProfile where
  unitsPerGb : ℚ≥0
  minCost : ℚ≥0

/-- `_profiles["read_buffer"]` -/
def readBufferProfile : CostProfile := ⟨1, 0⟩

/-- `_profiles.get(name, _profiles["read_buffer"])` -/
def profileOf (name : String) : CostProfile :=
  if name = "local_hashserver" then ⟨10, 1 / 1000⟩
  else if name = "remote_hashserver" then ⟨100, 1 / 100⟩
  else readBufferProfile

/-- `BYTES_IN_GB` -/
def bytesInGb : ℚ≥0 := 1024 ^ 3

/-- The cost of a download of so many bytes. -/
def CostProfile.estimate (p : CostProfile) (length : Nat) : ℚ≥0 :=
  max (length / bytesInGb * p.unitsPerGb) p.minCost

/-- `cpu_seconds * DEFAULT_CPU_COST_PER_SECOND` -/
def cpuCost (seconds : Cost) : Cost := seconds.map fun t => t / 10

/-! ## §2. The module. -/

/-- `CostModule`.  An absent count is `0`, an absent set is empty. -/
structure CostModule (K : Type) where
  checksumProfiles : K → Option String
  manualCosts : K → Option Cost
  cpuSeconds : K → Option Cost
  lengths : K → Option Nat
  /-- `_dependencies` -/
  graph : DepGraph K
  reverse : K → List K
  dependencyInterest : K → Nat
  directInterest : K → Nat
  costCache : K → Option Cost

variable {K : Type} [DecidableEq K]

namespace CostModule

/-- `CostModule()` -/
def initial : CostModule K where
  checksumProfiles _ := none
  manualCosts _ := none
  cpuSeconds _ := none
  lengths _ := none
  graph := .empty
  reverse _ := []
  dependencyInterest _ := 0
  directInterest _ := 0
  costCache _ := none

/-- `_total_interest(checksum)` -/
def totalInterest (s : CostModule K) (c : K) : Nat :=
  s.directInterest c + s.dependencyInterest c

/-- `_is_interesting(checksum)` -/
def isInteresting (s : CostModule K) (c : K) : Bool := 0 < s.totalInterest c

/-! ## §3. Releasing. -/

/-- `_reverse_dependencies[dep]` loses the checksum. -/
def unlink (s : CostModule K) (c dep : K) : CostModule K :=
  { s with reverse := Function.update s.reverse dep ((s.reverse dep).filter (· ≠ c)) }

def setDependencyInterest (s : CostModule K) (c : K) (n : Nat) : CostModule K :=
  { s with dependencyInterest := Function.update s.dependencyInterest c n }

def dropCost (s : CostModule K) (c : K) : CostModule K :=
  { s with costCache := Function.update s.costCache c none }

/-- `_maybe_release(checksum)` -/
def maybeRelease (detach : CostModule K → K → Option (CostModule K)) (s : CostModule K) (c : K) :
    Option (CostModule K) :=
  if s.isInteresting c then some s else detach (s.dropCost c) c

/-- `_decrement_dependency_interest(checksum)` -/
def decrement (detach : CostModule K → K → Option (CostModule K)) (s : CostModule K) (c : K) :
    Option (CostModule K) :=
  match s.dependencyInterest c with
  | 0 => some s
  | 1 => maybeRelease detach (s.setDependencyInterest c 0) c
  | n + 2 => some (s.setDependencyInterest c (n + 1))

/-- The loop of `_detach_dependencies(checksum)` -/
def detachLoop (detach : CostModule K → K → Option (CostModule K)) (c : K) :
    List K → CostModule K → Option (CostModule K)
  | [], s => some s
  | dep :: deps, s => do
    let s ← decrement detach (s.unlink c dep) dep
    detachLoop detach c deps s

/-- The dependencies are popped. -/
def pop (s : CostModule K) (c : K) : CostModule K := { s with graph := s.graph.erase c }

/-- `_detach_dependencies(checksum)`, at most `fuel` calls deep; `none` is a
call that is cut off. -/
def detachFuel : (fuel : Nat) → CostModule K → K → Option (CostModule K)
  | 0, s, c => if s.graph.deps c = [] then some s else none
  | fuel + 1, s, c =>
    if s.graph.deps c = [] then some s
    else detachLoop (detachFuel fuel) c (s.graph.deps c) (s.pop c)

/-- `_detach_dependencies(checksum)`; no call goes deeper than there are
checksums with dependencies. -/
def detach (s : CostModule K) (c : K) : CostModule K :=
  (detachFuel s.graph.keys.card s c).getD s

/-- `_maybe_release(checksum)` -/
def release (s : CostModule K) (c : K) : CostModule K :=
  if s.isInteresting c then s else (s.dropCost c).detach c

/-! ## §4. Interest. -/

def setDirectInterest (s : CostModule K) (c : K) (n : Nat) : CostModule K :=
  { s with directInterest := Function.update s.directInterest c n }

/-- `add_interest(checksum)` -/
def addInterest (s : CostModule K) (c : K) : CostModule K :=
  s.setDirectInterest c (s.directInterest c + 1)

/-- `remove_interest(checksum)` -/
def removeInterest (s : CostModule K) (c : K) : CostModule K :=
  match s.directInterest c with
  | 0 => s
  | 1 => (s.setDirectInterest c 0).release c
  | n + 2 => s.setDirectInterest c (n + 1)

/-! ## §5. Invalidation. -/

/-- The loop of `_mark_dirty`; `pending` has its end first. -/
def markLoop : (fuel : Nat) → (pending seen : List K) → CostModule K → Option (CostModule K)
  | _, [], _, s => some s
  | 0, _ :: _, _, _ => none
  | fuel + 1, current :: pending, seen, s =>
    if current ∈ seen then markLoop fuel pending seen s
    else
      markLoop fuel (s.reverse current ++ pending) (current :: seen) (s.dropCost current)

/-- The checksums that something depends on. -/
def targets (s : CostModule K) : Finset K := s.graph.keys.biUnion fun c => (s.graph.deps c).toFinset

/-- The entries of `_reverse_dependencies` -/
def reverseSize (s : CostModule K) : Nat := ∑ d ∈ s.targets, (s.reverse d).length

/-- `_mark_dirty(checksum)`; every entry is pushed once at most. -/
def markDirty (s : CostModule K) (c : K) : CostModule K :=
  (markLoop (s.reverseSize + 1) [c] [] s).getD s

/-! ## §6. Registration. -/

/-- A new edge: `_reverse_dependencies.setdefault(dep, set()).add(checksum)`
and `_increment_dependency_interest(dep)` -/
def attach (s : CostModule K) (c dep : K) : CostModule K :=
  { s with
    reverse := Function.update s.reverse dep
      (if c ∈ s.reverse dep then s.reverse dep else c :: s.reverse dep)
    dependencyInterest := Function.update s.dependencyInterest dep (s.dependencyInterest dep + 1) }

/-- The new dependencies of a checksum that has none -/
def attachAll (s : CostModule K) (c : K) (deps : List K) : CostModule K :=
  deps.foldl (fun s dep => s.attach c dep) { s with graph := s.graph.set c deps }

/-- `register_dependencies(checksum, dependencies)` -/
def registerDependencies (s : CostModule K) (c : K) (deps : List K) : CostModule K :=
  let s := s.detach c
  let s := if deps = [] then s else s.attachAll c deps
  if s.isInteresting c then s.markDirty c else s

/-- `buffer_lengths.notify_length(checksum, length)`, and whether it changed something -/
def notifyLength (s : CostModule K) (c : K) (length : Option Int) : CostModule K × Bool :=
  match length with
  | none => (s, false)
  | some length =>
    let normalized := (max length 0).toNat
    if s.lengths c = some normalized then (s, false)
    else ({ s with lengths := Function.update s.lengths c (some normalized) }, true)

/-- `register_buffer_length(checksum, length)` -/
def registerBufferLength (s : CostModule K) (c : K) (length : Option Int) : CostModule K :=
  let (s, changed) := s.notifyLength c length
  if changed && s.isInteresting c then s.markDirty c else s

/-- `set_download_profile(checksum, profile)` -/
def setDownloadProfile (s : CostModule K) (c : K) (profile : String) : CostModule K :=
  let s := { s with checksumProfiles := Function.update s.checksumProfiles c (some profile) }
  s.markDirty c

/-- `override_download_cost(checksum, cost)` -/
def overrideDownloadCost (s : CostModule K) (c : K) (cost : Cost) : CostModule K :=
  let s := { s with manualCosts := Function.update s.manualCosts c (some (max cost 0)) }
  s.markDirty c

/-- `record_transformation_cost(checksum, cpu_seconds)` -/
def recordTransformationCost (s : CostModule K) (c : K) (seconds : Option Cost) : CostModule K :=
  let s :=
    { s with cpuSeconds := Function.update s.cpuSeconds c (seconds.map fun t => max t 0) }
  s.markDirty c

/-! ## §7. Costs of checksums. -/

/-- `download.estimate_cost(checksum, length_bytes)` -/
def downloadCost (s : CostModule K) (c : K) (length : Nat) : Cost :=
  match s.manualCosts c with
  | some cost => cost
  | none => ((match s.checksumProfiles c with
    | none => readBufferProfile
    | some name => profileOf name).estimate length : ℚ≥0)

/-- `transformations.estimate_cost(checksum)`; conversions are free. -/
def transformationCost (s : CostModule K) (c : K) : Cost :=
  match s.cpuSeconds c with
  | none => 0
  | some seconds => cpuCost seconds

/-- The cost of a checksum with these dependencies, from what they cost -/
def combine (s : CostModule K) (c : K) (length : Nat) (dependencyCost : Option Cost) : Cost :=
  (match dependencyCost with
    | none => s.downloadCost c length
    | some cost => max (s.downloadCost c length) cost) + s.transformationCost c

abbrev CostCache (K : Type) := K → Option Cost

/-- The loop over the dependencies in `_compute_cost` -/
def dependencyCost (ensure : CostCache K → K → Option (Cost × CostCache K)) :
    List K → Cost → CostCache K → Option (Cost × CostCache K)
  | [], sum, cache => some (sum, cache)
  | dep :: deps, sum, cache => do
    let (cost, cache) ← ensure cache dep
    if cost = ⊤ then some (⊤, cache) else dependencyCost ensure deps (sum + cost) cache

/-- `_compute_cost(checksum)`, where `ensure` is `_ensure_cost` with the
checksum being computed, or `none` where the fuel ends -/
def computeCost (s : CostModule K)
    (ensure : Option (CostCache K → K → Option (Cost × CostCache K))) (computing : List K)
    (cache : CostCache K) (c : K) : Option (Cost × CostCache K) :=
  if c ∈ computing then some (⊤, cache)
  else
    match s.lengths c with
    | none => some (⊤, cache)
    | some length =>
      if s.graph.deps c = [] then some (s.combine c length none, cache)
      else do
        let (cost, cache) ← dependencyCost (← ensure) (s.graph.deps c) 0 cache
        if cost = ⊤ then some (⊤, cache) else some (s.combine c length (some cost), cache)

/-- `_ensure_cost(checksum)` from what is computed -/
def cacheCost (compute : CostCache K → K → Option (Cost × CostCache K)) (cache : CostCache K)
    (c : K) : Option (Cost × CostCache K) :=
  match cache c with
  | some cost => some (cost, cache)
  | none => do
    let (cost, cache) ← compute cache c
    some (cost, Function.update cache c (some cost))

/-- `_ensure_cost(checksum)`, at most `fuel` calls deep; `computing` are the
checksums whose costs are being computed. -/
def ensureFuel (s : CostModule K) :
    (fuel : Nat) → (computing : List K) → CostCache K → K → Option (Cost × CostCache K)
  | 0, computing => cacheCost (s.computeCost none computing)
  | fuel + 1, computing =>
    cacheCost fun cache c =>
      s.computeCost (some (ensureFuel s fuel (c :: computing))) computing cache c

/-- `_ensure_cost(checksum)`; every call below another is for a new checksum. -/
def ensureCost (s : CostModule K) (c : K) : Cost × CostModule K :=
  let (cost, cache) := (s.ensureFuel s.graph.keys.card [] s.costCache c).getD (⊤, s.costCache)
  (cost, { s with costCache := cache })

/-- `get_cost(checksum, buffer_length)` -/
def getCost (s : CostModule K) (c : K) (bufferLength : Option Int) : Cost × CostModule K :=
  let s := s.registerBufferLength c bufferLength
  if s.isInteresting c then s.ensureCost c else (⊤, s)

/-! ## §8. The functions of the module. -/

inductive Op (K : Type) where
  | addInterest (c : K)
  | removeInterest (c : K)
  | registerDependencies (c : K) (deps : List K)
  | registerBufferLength (c : K) (length : Option Int)
  | setDownloadProfile (c : K) (profile : String)
  | overrideDownloadCost (c : K) (cost : Cost)
  | recordTransformationCost (c : K) (seconds : Option Cost)
  | getCost (c : K) (bufferLength : Option Int)

/-- One call, with the cost that it returns -/
def step (s : CostModule K) : Op K → CostModule K × Option Cost
  | .addInterest c => (s.addInterest c, none)
  | .removeInterest c => (s.removeInterest c, none)
  | .registerDependencies c deps => (s.registerDependencies c deps, none)
  | .registerBufferLength c length => (s.registerBufferLength c length, none)
  | .setDownloadProfile c profile => (s.setDownloadProfile c profile, none)
  | .overrideDownloadCost c cost => (s.overrideDownloadCost c cost, none)
  | .recordTransformationCost c seconds => (s.recordTransformationCost c seconds, none)
  | .getCost c bufferLength => ((s.getCost c bufferLength).2, some (s.getCost c bufferLength).1)

/-- The module after the calls. -/
def after (ops : List (Op K)) : CostModule K := Run.exec step initial ops

end CostModule

end SeamlessCore.EvictionCost
