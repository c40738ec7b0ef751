/-
  Lru — caches that forget what was used least recently.

  The entries of a cache of size `n`, most recently used first, with distinct
  keys.  A lookup moves its entry to the front; an assignment puts its entry
  there, and drops the last one if there is no room.

  Main results:
    * `mem_entries_iff` — the entries are what a lookup finds;
    * `mem_touch`, `mem_set`, `lookup_set_self` — the entries after an operation.
-/
import Mathlib

/-- A cache of at most `n` entries. -/
structure Lru (n : Nat) (K V : Type) where
  /-- Most recently used first -/
  entries : List (K × V)
  nodup : (entries.map Prod.fst).Nodup
  bounded : entries.length ≤ n

namespace Lru

variable {n : Nat} {K V : Type} [DecidableEq K]

/-! ## §1. Operations. -/

def empty : Lru n K V := ⟨[], List.nodup_nil, Nat.zero_le n⟩

/-- The value of a key; the order of the entries does not change. -/
def lookup (c : Lru n K V) (k : K) : Option V := (c.entries.find? fun e => e.1 = k).map Prod.snd

/-- The entries of other keys -/
def others (c : Lru n K V) (k : K) : List (K × V) := c.entries.filter fun e => e.1 ≠ k

omit [DecidableEq K] in
theorem nodup_sublist {l l' : List (K × V)} (h : l.Sublist l') (hl : (l'.map Prod.fst).Nodup) :
    (l.map Prod.fst).Nodup := hl.sublist (h.map Prod.fst)

theorem not_mem_others (c : Lru n K V) (k : K) : k ∉ (c.others k).map Prod.fst := by
  intro h
  obtain ⟨e, he, hk⟩ := List.mem_map.mp h
  have hne := (List.mem_filter.mp he).2
  simp only [ne_eq, decide_not, Bool.not_eq_true', decide_eq_false_iff_not] at hne
  exact hne hk

/-- Putting an entry in front of those of other keys keeps the keys distinct. -/
theorem nodup_front (c : Lru n K V) (k : K) (v : V) :
    (((k, v) :: c.others k).map Prod.fst).Nodup := by
  rw [List.map_cons, List.nodup_cons]
  exact ⟨c.not_mem_others k, nodup_sublist List.filter_sublist c.nodup⟩

/-- `cache[k] = v` -/
def set (c : Lru n K V) (k : K) (v : V) : Lru n K V where
  entries := ((k, v) :: c.others k).take n
  nodup := nodup_sublist (List.take_sublist n _) (c.nodup_front k v)
  bounded := List.length_take_le n _

/-- Looking a key up makes its entry the most recently used one. -/
def touch (c : Lru n K V) (k : K) : Lru n K V :=
  match c.lookup k with
  | none => c
  | some v => c.set k v

/-- `del cache[k]` -/
def erase (c : Lru n K V) (k : K) : Lru n K V where
  entries := c.others k
  nodup := nodup_sublist List.filter_sublist c.nodup
  bounded := (List.length_filter_le _ _).trans c.bounded

/-- The entries that an assignment drops -/
def dropped (c : Lru n K V) (k : K) (v : V) : List (K × V) := ((k, v) :: c.others k).drop n

omit [DecidableEq K] in
/-- The cache of another size; what was used least recently is dropped. -/
def resize (c : Lru n K V) (m : Nat) : Lru m K V where
  entries := c.entries.take m
  nodup := nodup_sublist (List.take_sublist m _) c.nodup
  bounded := List.length_take_le m _

/-! ## §2. Entries. -/

theorem mem_entries_iff (c : Lru n K V) (k : K) (v : V) :
    (k, v) ∈ c.entries ↔ c.lookup k = some v := by
  unfold lookup
  rw [Option.map_eq_some_iff]
  constructor
  · intro h
    refine ⟨(k, v), ?_, rfl⟩
    cases hfind : c.entries.find? fun e => e.1 = k with
    | none =>
      have hnone := List.find?_eq_none.mp hfind (k, v) h
      simp at hnone
    | some e =>
      have hkey : e.1 = k := by simpa using List.find?_some hfind
      -- the keys are distinct, so this is the entry
      have hmem := List.mem_of_find?_eq_some hfind
      exact congrArg some (List.inj_on_of_nodup_map c.nodup hmem h hkey)
  · intro h
    obtain ⟨e, hfind, hv⟩ := h
    have hkey : e.1 = k := by simpa using List.find?_some hfind
    rw [← hkey, ← hv]
    exact List.mem_of_find?_eq_some hfind

/-- After an assignment there is the new entry, and some of those of other keys. -/
theorem mem_set {c : Lru n K V} {k : K} {v : V} {e : K × V} (h : e ∈ (c.set k v).entries) :
    e = (k, v) ∨ (e.1 ≠ k ∧ e ∈ c.entries) := by
  have hmem : e ∈ (k, v) :: c.others k := List.mem_of_mem_take h
  rcases List.mem_cons.mp hmem with heq | hother
  · exact .inl heq
  · obtain ⟨hentry, hne⟩ := List.mem_filter.mp hother
    exact .inr ⟨of_decide_eq_true hne, hentry⟩

/-- A cache with room for one entry holds what was assigned last. -/
theorem lookup_set_self (hn : 0 < n) (c : Lru n K V) (k : K) (v : V) :
    (c.set k v).lookup k = some v := by
  rw [← mem_entries_iff]
  show (k, v) ∈ ((k, v) :: c.others k).take n
  obtain ⟨m, rfl⟩ := Nat.exists_eq_succ_of_ne_zero (Nat.ne_of_gt hn)
  exact List.mem_cons_self

theorem mem_touch {c : Lru n K V} {k : K} {e : K × V} (h : e ∈ (c.touch k).entries) :
    e ∈ c.entries := by
  unfold touch at h
  cases hk : c.lookup k with
  | none =>
    rw [hk] at h
    exact h
  | some v =>
    rw [hk] at h
    rcases mem_set h with heq | hother
    · rw [heq]
      exact (c.mem_entries_iff k v).mpr hk
    · exact hother.2

/-! ## §3. Entries by their place. -/

/-- An entry and those before and after it -/
theorem others_of_split {c : Lru n K V} {k : K} {v : V} {pre post : List (K × V)}
    (h : c.entries = pre ++ (k, v) :: post) : c.others k = pre ++ post := by
  have hnodup := c.nodup
  rw [h, List.map_append, List.map_cons] at hnodup
  have hne : ∀ e ∈ pre ++ post, e.1 ≠ k := by
    intro e he heq
    have hperm : (pre.map Prod.fst ++ k :: post.map Prod.fst).Perm
        (k :: (pre ++ post).map Prod.fst) := by
      rw [List.map_append]
      exact List.perm_middle
    exact (List.nodup_cons.mp (hperm.nodup_iff.mp hnodup)).1
      (heq ▸ List.mem_map_of_mem he)
  unfold others
  rw [h, List.filter_append, List.filter_cons_of_neg (by simp)]
  rw [← List.filter_append, List.filter_eq_self]
  intro e he
  exact decide_eq_true (hne e he)

theorem others_of_absent {c : Lru n K V} {k : K} (h : c.lookup k = none) :
    c.others k = c.entries := by
  unfold others
  rw [List.filter_eq_self]
  intro e he
  refine decide_eq_true fun heq => ?_
  have hmem : (k, e.2) ∈ c.entries := heq ▸ he
  rw [mem_entries_iff, h] at hmem
  cases hmem

theorem lookup_of_split {c : Lru n K V} {k : K} {v : V} {pre post : List (K × V)}
    (h : c.entries = pre ++ (k, v) :: post) : c.lookup k = some v := by
  rw [← mem_entries_iff, h]
  exact List.mem_append_right _ List.mem_cons_self

/-- Moving an entry to the front drops nothing. -/
theorem set_of_split {c : Lru n K V} {k : K} {v : V} {pre post : List (K × V)}
    (h : c.entries = pre ++ (k, v) :: post) (v' : V) :
    (c.set k v').entries = (k, v') :: (pre ++ post) ∧ c.dropped k v' = [] := by
  have hlength : ((k, v') :: (pre ++ post)).length ≤ n := by
    have hbounded := c.bounded
    rw [h, List.length_append, List.length_cons] at hbounded
    rw [List.length_cons, List.length_append]
    omega
  show ((k, v') :: c.others k).take n = _ ∧ ((k, v') :: c.others k).drop n = _
  rw [others_of_split h]
  exact ⟨List.take_of_length_le hlength, List.drop_of_length_le hlength⟩

end Lru
