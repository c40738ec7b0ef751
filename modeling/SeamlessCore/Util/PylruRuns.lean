/-
  SeamlessCore.Util.PylruRuns — runs of the LRU cache.

  What the cache is for is to hold the entries that were used last, as many as
  its size.  Its operations on nodes and pointers do this: a cache that is given
  a sequence of operations answers each of them as a list of entries does, and
  gives the same entries to its callback in the same order.

  Main definitions:
    * `Sized` — a size, and the entries of a cache of this size;
    * `Represents` — the nodes of a cache hold these entries.
  Main results:
    * `step_refines` — one operation;
    * `run_refines` — every sequence of operations, changes of size included.

  Source: `seamless/util/pylru.py`.
-/
import SeamlessCore.Lib.Run
import SeamlessCore.Util.Pylru

namespace SeamlessCore.Pylru

variable {K V : Type} [DecidableEq K]

/-! ## §1. Operations. -/

/-- The calls of the cache -/
inductive Op (K V : Type) where
  | getItem (k : K)
  | get (k : K) (default : V)
  | peek (k : K)
  | contains (k : K)
  | len
  | setItem (k : K) (v : V)
  | delItem (k : K)
  | pop (k : K)
  | popDefault (k : K) (default : V)
  | popItem
  | setDefault (k : K) (default : V)
  | items
  | clear
  | resize (size : Nat)

/-- What a call returns or raises -/
inductive Answer (K V : Type) where
  | done
  | bool (b : Bool)
  | count (n : Nat)
  | value (v : V)
  | entry (k : K) (v : V)
  | entries (l : List (K × V))
  | raised (e : Error)

/-- An answer, and the calls of the callback -/
abbrev Output (K V : Type) := Answer K V × List (K × V)

/-- What a call returns, with the calls of the callback and the cache after it -/
def LruCache.call (c : LruCache K V) :
    Op K V → Except Error (LruCache K V × Output K V)
  | .getItem k => (c.getItem k).map fun r => (r.2, .value r.1, [])
  | .get k default =>
    if c.contains k then (c.getItem k).map fun r => (r.2, .value r.1, [])
    else .ok (c, .value default, [])
  | .peek k => (c.peek k).map fun v => (c, .value v, [])
  | .contains k => .ok (c, .bool (c.contains k), [])
  | .len => .ok (c, .count c.len, [])
  | .setItem k v => (c.setItem k v).map fun r => (r.2, .done, r.1)
  | .delItem k => (c.delItem k).map fun c => (c, .done, [])
  | .pop k => (c.pop k).map fun r => (r.2, .value r.1, [])
  | .popDefault k default =>
    if c.contains k then (c.pop k).map fun r => (r.2, .value r.1, [])
    else .ok (c, .value default, [])
  | .popItem => (c.popItem).map fun r => (r.2, .entry r.1.1 r.1.2, [])
  | .setDefault k default => (c.setDefault k default).map fun r => (r.2.2, .value r.1, r.2.1)
  | .items => (c.items).map fun l => (c, .entries l, [])
  | .clear => (c.clear).map fun c => (c, .done, [])
  | .resize size => (c.resize size).map fun r => (r.2, .done, r.1)

/-- A call; one that raises `KeyError` or `AssertionError` has changed nothing. -/
def LruCache.step (c : LruCache K V) (op : Op K V) : LruCache K V × Output K V :=
  match c.call op with
  | .ok r => r
  | .error e => (c, .raised e, [])

/-- What the cache is for: the entries that were used last, as many as its size -/
structure Sized (K V : Type) where
  size : Nat
  cache : Lru size K V

namespace Sized

/-- The cache is used with its entries changed. -/
def withCache (s : Sized K V) (cache : Lru s.size K V) : Sized K V := ⟨s.size, cache⟩

/-- `s[k] = v` -/
def set (s : Sized K V) (k : K) (v : V) (answer : Answer K V) : Sized K V × Output K V :=
  (s.withCache (s.cache.set k v), answer, s.cache.dropped k v)

def step (s : Sized K V) : Op K V → Sized K V × Output K V
  | .getItem k =>
    match s.cache.lookup k with
    | some v => (s.withCache (s.cache.touch k), .value v, [])
    | none => (s, .raised .keyError, [])
  | .get k default => (s.withCache (s.cache.touch k), .value ((s.cache.lookup k).getD default), [])
  | .peek k =>
    match s.cache.lookup k with
    | some v => (s, .value v, [])
    | none => (s, .raised .keyError, [])
  | .contains k => (s, .bool (s.cache.lookup k).isSome, [])
  | .len => (s, .count s.cache.entries.length, [])
  | .setItem k v => s.set k v .done
  | .delItem k =>
    match s.cache.lookup k with
    | some _ => (s.withCache (s.cache.erase k), .done, [])
    | none => (s, .raised .keyError, [])
  | .pop k =>
    match s.cache.lookup k with
    | some v => (s.withCache (s.cache.erase k), .value v, [])
    | none => (s, .raised .keyError, [])
  | .popDefault k default =>
    (s.withCache (s.cache.erase k), .value ((s.cache.lookup k).getD default), [])
  | .popItem =>
    match s.cache.entries with
    | (k, v) :: _ => (s.withCache (s.cache.erase k), .entry k v, [])
    | [] => (s, .raised .keyError, [])
  | .setDefault k default =>
    match s.cache.lookup k with
    | some v => (s.withCache (s.cache.touch k), .value v, [])
    | none => s.set k default (.value default)
  | .items => (s, .entries s.cache.entries, [])
  | .clear => (s.withCache Lru.empty, .done, [])
  | .resize size =>
    if size = 0 then (s, .raised .assertionError, [])
    else (⟨size, s.cache.resize size⟩, .done, (s.cache.entries.drop size).reverse)

end Sized

/-! ## §2. One operation. -/

/-- The nodes of the cache hold the entries, in their order. -/
def Represents (c : LruCache K V) (s : Sized K V) : Prop :=
  ∃ slots rest, c.Slots slots rest ∧ slots.map Prod.snd = s.cache.entries ∧
    slots.length + rest.length = s.size

namespace Represents

variable {c : LruCache K V} {s : Sized K V} {k : K} {v : V}

/-- A key is in no slot, or it splits the slots. -/
theorem find (h : Represents c s) (k : K) :
    (c.table.lookup k = none ∧ s.cache.lookup k = none) ∨
      ∃ a v pre post rest, c.Slots (pre ++ (a, k, v) :: post) rest ∧
        c.table.lookup k = some a ∧ s.cache.lookup k = some v ∧
        s.cache.entries = pre.map Prod.snd ++ (k, v) :: post.map Prod.snd ∧
        (pre ++ post).length + rest.length + 1 = s.size := by
  obtain ⟨slots, rest, hslots, hentries, hsize⟩ := h
  rcases hslots.find k with ⟨hnone, hother⟩ | ⟨a, v, pre, post, hfind, rfl⟩
  · refine .inl ⟨hnone, ?_⟩
    cases hk : s.cache.lookup k with
    | none => rfl
    | some v =>
      rw [← Lru.mem_entries_iff, ← hentries] at hk
      obtain ⟨u, hu, heq⟩ := List.mem_map.mp hk
      exact absurd (congrArg Prod.fst heq) (hother u hu)
  · rw [List.map_append, List.map_cons] at hentries
    refine .inr ⟨a, v, pre, post, rest, hslots, hfind, Lru.lookup_of_split hentries.symm,
      hentries.symm, ?_⟩
    simp only [List.length_append, List.length_cons] at hsize ⊢
    omega

theorem contains (h : Represents c s) (k : K) : c.contains k = (s.cache.lookup k).isSome := by
  unfold LruCache.contains
  rcases h.find k with ⟨hnone, hlookup⟩ | ⟨a, v, -, -, -, -, hfind, hlookup, -⟩
  · rw [hnone, hlookup]
    rfl
  · rw [hfind, hlookup]
    rfl

/-- A present key is moved to the front, with its value or another one. -/
theorem front {a : Addr} {pre post : List (Addr × K × V)} {rest : List Addr} {c' : LruCache K V}
    (hslots : c'.Slots ((a, k, v) :: (pre ++ post)) rest) {v' : V}
    (hentries : s.cache.entries = pre.map Prod.snd ++ (k, v') :: post.map Prod.snd)
    (hsize : (pre ++ post).length + rest.length + 1 = s.size) :
    Represents c' (s.withCache (s.cache.set k v)) := by
  refine ⟨_, _, hslots, ?_, ?_⟩
  · show _ = (s.cache.set k v).entries
    rw [(Lru.set_of_split hentries v).1, List.map_cons, List.map_append]
  · show _ = s.size
    rw [List.length_cons]
    omega

theorem getItem_some (h : Represents c s) (hk : s.cache.lookup k = some v) :
    ∃ c', c.getItem k = .ok (v, c') ∧ Represents c' (s.withCache (s.cache.touch k)) := by
  rcases h.find k with ⟨-, hnone⟩ | ⟨a, w, pre, post, rest, hslots, -, hlookup, hentries, hsize⟩
  · rw [hnone] at hk
    cases hk
  · rw [hlookup] at hk
    obtain rfl := Option.some.inj hk
    obtain ⟨c', hget, hslots'⟩ := hslots.getItem
    refine ⟨c', hget, ?_⟩
    unfold Lru.touch
    rw [hlookup]
    exact front hslots' hentries hsize

theorem getItem_none (h : Represents c s) (hk : s.cache.lookup k = none) :
    c.getItem k = .error .keyError := by
  rcases h.find k with ⟨hnone, -⟩ | ⟨a, w, -, -, -, -, -, hlookup, -⟩
  · unfold LruCache.getItem
    rw [hnone]
  · rw [hlookup] at hk
    cases hk

/-- An assignment is one to the entries, and the callback gets what they drop. -/
theorem setItem (h : Represents c s) (k : K) (v : V) :
    ∃ c', c.setItem k v = .ok (s.cache.dropped k v, c') ∧
      Represents c' (s.withCache (s.cache.set k v)) := by
  rcases h.find k with ⟨hnone, hlookup⟩ | ⟨a, w, pre, post, rest, hslots, -, -, hentries, hsize⟩
  · obtain ⟨slots, rest, hslots, hentries, hsize⟩ := h
    have hother : ∀ u ∈ slots, u.2.1 ≠ k := by
      intro u hu heq
      have hmem : (k, u.2.2) ∈ s.cache.entries := by
        rw [← hentries, ← heq]
        exact List.mem_map_of_mem hu
      rw [Lru.mem_entries_iff, hlookup] at hmem
      cases hmem
    have hwhole : (k, v) :: s.cache.others k = (k, v) :: slots.map Prod.snd := by
      rw [Lru.others_of_absent hlookup, hentries]
    rcases List.eq_nil_or_concat rest with rfl | ⟨init, z, hrest⟩
    · -- the cache is full: the last entry makes room
      rcases List.eq_nil_or_concat slots with rfl | ⟨init, ⟨z, k₀, v₀⟩, hconcat⟩
      · have hhead := hslots.head
        cases hhead
      · rw [List.concat_eq_append] at hconcat
        subst hconcat
        obtain ⟨c', hset, hslots'⟩ := hslots.setItem_full hother hnone v
        rw [List.length_append, List.length_singleton, List.length_nil] at hsize
        have hfull : ((k, v) :: init.map Prod.snd).length = s.size := by
          rw [List.length_cons, List.length_map]
          omega
        rw [List.map_append, ← List.cons_append] at hwhole
        refine ⟨c', ?_, _, _, hslots', ?_, ?_⟩
        · unfold Lru.dropped
          rw [hset, hwhole, List.drop_left' hfull]
          rfl
        · show _ = ((k, v) :: s.cache.others k).take s.size
          rw [hwhole, List.take_left' hfull]
          rfl
        · show _ = s.size
          rw [List.length_cons, List.length_nil]
          omega
    · rw [List.concat_eq_append] at hrest
      subst hrest
      obtain ⟨c', hset, hslots'⟩ := hslots.setItem_free hother hnone v
      rw [List.length_append, List.length_singleton] at hsize
      have hroom : ((k, v) :: slots.map Prod.snd).length ≤ s.size := by
        rw [List.length_cons, List.length_map]
        omega
      refine ⟨c', ?_, _, _, hslots', ?_, ?_⟩
      · unfold Lru.dropped
        rw [hset, hwhole, List.drop_of_length_le hroom]
      · show _ = ((k, v) :: s.cache.others k).take s.size
        rw [hwhole, List.take_of_length_le hroom]
        rfl
      · show _ = s.size
        rw [List.length_cons]
        omega
  · obtain ⟨c', hset, hslots'⟩ := hslots.setItem_present v
    refine ⟨c', ?_, front hslots' hentries hsize⟩
    rw [hset, (Lru.set_of_split hentries v).2]

theorem delItem_some (h : Represents c s) (hk : s.cache.lookup k = some v) :
    ∃ c', c.delItem k = .ok c' ∧ Represents c' (s.withCache (s.cache.erase k)) := by
  rcases h.find k with ⟨-, hnone⟩ | ⟨a, w, pre, post, rest, hslots, -, hlookup, hentries, hsize⟩
  · rw [hnone] at hk
    cases hk
  · obtain ⟨c', hdel, hslots'⟩ := hslots.delItem
    refine ⟨c', hdel, _, _, hslots', ?_, ?_⟩
    · show _ = s.cache.others k
      rw [Lru.others_of_split hentries, List.map_append]
    · show _ = s.size
      simp only [List.length_append, List.length_singleton] at hsize ⊢
      omega

theorem delItem_none (h : Represents c s) (hk : s.cache.lookup k = none) :
    c.delItem k = .error .keyError := by
  rcases h.find k with ⟨hnone, -⟩ | ⟨a, w, -, -, -, -, -, hlookup, -⟩
  · unfold LruCache.delItem
    rw [hnone]
  · rw [hlookup] at hk
    cases hk

theorem peek_some (h : Represents c s) (hk : s.cache.lookup k = some v) : c.peek k = .ok v := by
  rcases h.find k with ⟨-, hnone⟩ | ⟨a, w, pre, post, rest, hslots, hfind, hlookup, -⟩
  · rw [hnone] at hk
    cases hk
  · rw [hlookup] at hk
    obtain rfl := Option.some.inj hk
    have hnode := hslots.filled a k w (List.mem_append_right _ List.mem_cons_self)
    unfold LruCache.peek
    rw [hfind]
    show attr (c.nodes a).value = _
    rw [hnode]
    rfl

theorem peek_none (h : Represents c s) (hk : s.cache.lookup k = none) :
    c.peek k = .error .keyError := by
  rcases h.find k with ⟨hnone, -⟩ | ⟨a, w, -, -, -, -, -, hlookup, -⟩
  · unfold LruCache.peek
    rw [hnone]
  · rw [hlookup] at hk
    cases hk

theorem len (h : Represents c s) : c.len = s.cache.entries.length := by
  obtain ⟨slots, rest, hslots, hentries, -⟩ := h
  unfold LruCache.len
  rw [hslots.length_table, ← hentries, List.length_map]

theorem items (h : Represents c s) : c.items = .ok s.cache.entries := by
  obtain ⟨slots, rest, hslots, hentries, -⟩ := h
  rw [hslots.items, hentries]

theorem clear (h : Represents c s) :
    ∃ c', c.clear = .ok c' ∧ Represents c' (s.withCache Lru.empty) := by
  obtain ⟨slots, rest, hslots, -, hsize⟩ := h
  obtain ⟨c', hclear, hslots'⟩ := hslots.clear
  refine ⟨c', hclear, _, _, hslots', rfl, ?_⟩
  show _ = s.size
  rw [List.length_nil, List.length_append, List.length_map]
  omega

theorem resize (h : Represents c s) {size : Nat} (hsize : size ≠ 0) :
    ∃ c', c.resize size = .ok ((s.cache.entries.drop size).reverse, c') ∧
      Represents c' ⟨size, s.cache.resize size⟩ := by
  obtain ⟨slots, rest, hslots, hentries, -⟩ := h
  obtain ⟨c', slots', rest', hresize, hslots', hlength, hentries'⟩ := hslots.resize hsize
  rw [hentries] at hresize hentries'
  exact ⟨c', hresize, slots', rest', hslots', hentries', hlength⟩

theorem pop_some (h : Represents c s) (hk : s.cache.lookup k = some v) :
    ∃ c', c.pop k = .ok (v, c') ∧ Represents c' (s.withCache (s.cache.erase k)) := by
  obtain ⟨c', hdel, h'⟩ := h.delItem_some hk
  refine ⟨c', ?_, h'⟩
  unfold LruCache.pop
  rw [h.contains, hk, h.peek_some hk, hdel]
  rfl

theorem pop_none (h : Represents c s) (hk : s.cache.lookup k = none) :
    c.pop k = .error .keyError := by
  unfold LruCache.pop
  rw [h.contains, hk]
  rfl

/-- The head has the entry that was used last. -/
theorem popItem_cons (h : Represents c s) {l : List (K × V)}
    (hentries : s.cache.entries = (k, v) :: l) :
    ∃ c', c.popItem = .ok ((k, v), c') ∧ Represents c' (s.withCache (s.cache.erase k)) := by
  have hk : s.cache.lookup k = some v := by
    rw [← Lru.mem_entries_iff, hentries]
    exact List.mem_cons_self
  obtain ⟨c', hdel, h'⟩ := h.delItem_some hk
  refine ⟨c', ?_, h'⟩
  have hlen : ¬c.len < 1 := by
    rw [h.len, hentries, List.length_cons]
    omega
  have hnode : c.nodes c.head = ⟨false, some k, some v⟩ := by
    obtain ⟨slots, rest, hslots, hslots_entries, -⟩ := h
    rw [hentries] at hslots_entries
    obtain ⟨⟨a, e⟩, slots, rfl, heq, -⟩ := List.map_eq_cons_iff.mp hslots_entries
    have hhead : a = c.head := Option.some.inj hslots.head
    obtain rfl : e = (k, v) := heq
    rw [← hhead]
    exact hslots.filled a k v List.mem_cons_self
  unfold LruCache.popItem
  rw [if_neg hlen, hnode]
  show (c.delItem k >>= _) = _
  rw [hdel]
  rfl

theorem popItem_nil (h : Represents c s) (hentries : s.cache.entries = []) :
    c.popItem = .error .keyError := by
  unfold LruCache.popItem
  rw [h.len, hentries]
  rfl

end Represents

/-- A call of the cache gives what it gives on the entries. -/
theorem call_refines {c : LruCache K V} {s : Sized K V} (h : Represents c s) (op : Op K V) :
    (∃ c', c.call op = .ok (c', (s.step op).2) ∧ Represents c' (s.step op).1) ∨
      ∃ e, c.call op = .error e ∧ s.step op = (s, .raised e, []) ∧ e ≠ .attributeError := by
  cases op with
  | getItem k =>
    cases hk : s.cache.lookup k with
    | none =>
      refine .inr ⟨.keyError, ?_, ?_, by decide⟩
      · rw [LruCache.call, h.getItem_none hk]
        rfl
      · rw [Sized.step, hk]
    | some v =>
      obtain ⟨c', hget, h'⟩ := h.getItem_some hk
      left
      rw [LruCache.call, hget, Sized.step, hk]
      exact ⟨c', rfl, h'⟩
  | get k d =>
    left
    rw [LruCache.call, h.contains, Sized.step]
    cases hk : s.cache.lookup k with
    | none =>
      refine ⟨c, rfl, ?_⟩
      unfold Lru.touch
      rw [hk]
      exact h
    | some v =>
      obtain ⟨c', hget, h'⟩ := h.getItem_some hk
      refine ⟨c', ?_, h'⟩
      rw [hget]
      rfl
  | peek k =>
    cases hk : s.cache.lookup k with
    | none =>
      refine .inr ⟨.keyError, ?_, ?_, by decide⟩
      · rw [LruCache.call, h.peek_none hk]
        rfl
      · rw [Sized.step, hk]
    | some v =>
      left
      rw [LruCache.call, h.peek_some hk, Sized.step, hk]
      exact ⟨c, rfl, h⟩
  | contains k =>
    left
    rw [LruCache.call, h.contains]
    exact ⟨c, rfl, h⟩
  | len =>
    left
    rw [LruCache.call, h.len]
    exact ⟨c, rfl, h⟩
  | setItem k v =>
    obtain ⟨c', hset, h'⟩ := h.setItem k v
    left
    rw [LruCache.call, hset]
    exact ⟨c', rfl, h'⟩
  | delItem k =>
    cases hk : s.cache.lookup k with
    | none =>
      refine .inr ⟨.keyError, ?_, ?_, by decide⟩
      · rw [LruCache.call, h.delItem_none hk]
        rfl
      · rw [Sized.step, hk]
    | some v =>
      obtain ⟨c', hdel, h'⟩ := h.delItem_some hk
      left
      rw [LruCache.call, hdel, Sized.step, hk]
      exact ⟨c', rfl, h'⟩
  | pop k =>
    cases hk : s.cache.lookup k with
    | none =>
      refine .inr ⟨.keyError, ?_, ?_, by decide⟩
      · rw [LruCache.call, h.pop_none hk]
        rfl
      · rw [Sized.step, hk]
    | some v =>
      obtain ⟨c', hpop, h'⟩ := h.pop_some hk
      left
      rw [LruCache.call, hpop, Sized.step, hk]
      exact ⟨c', rfl, h'⟩
  | popDefault k d =>
    left
    rw [LruCache.call, h.contains, Sized.step]
    cases hk : s.cache.lookup k with
    | none =>
      refine ⟨c, rfl, ?_⟩
      -- without the key, erasing it changes nothing
      obtain ⟨slots, rest, hslots, hentries, hsize⟩ := h
      exact ⟨slots, rest, hslots, hentries.trans (Lru.others_of_absent hk).symm, hsize⟩
    | some v =>
      obtain ⟨c', hpop, h'⟩ := h.pop_some hk
      refine ⟨c', ?_, h'⟩
      rw [hpop]
      rfl
  | popItem =>
    cases hentries : s.cache.entries with
    | nil =>
      refine .inr ⟨.keyError, ?_, ?_, by decide⟩
      · rw [LruCache.call, h.popItem_nil hentries]
        rfl
      · rw [Sized.step, hentries]
    | cons e l =>
      obtain ⟨c', hpop, h'⟩ := @Represents.popItem_cons _ _ _ _ _ e.1 e.2 h _ hentries
      left
      rw [LruCache.call, hpop, Sized.step, hentries]
      exact ⟨c', rfl, h'⟩
  | setDefault k d =>
    left
    rw [LruCache.call, LruCache.setDefault, h.contains, Sized.step]
    cases hk : s.cache.lookup k with
    | none =>
      obtain ⟨c', hset, h'⟩ := h.setItem k d
      refine ⟨c', ?_, h'⟩
      rw [hset]
      rfl
    | some v =>
      obtain ⟨c', hget, h'⟩ := h.getItem_some hk
      refine ⟨c', ?_, h'⟩
      rw [hget]
      rfl
  | items =>
    left
    rw [LruCache.call, h.items]
    exact ⟨c, rfl, h⟩
  | clear =>
    obtain ⟨c', hclear, h'⟩ := h.clear
    left
    rw [LruCache.call, hclear]
    exact ⟨c', rfl, h'⟩
  | resize size =>
    by_cases hsize : size = 0
    · refine .inr ⟨.assertionError, ?_, ?_, by decide⟩
      · rw [LruCache.call, LruCache.resize, if_pos hsize]
        rfl
      · rw [Sized.step, if_pos hsize]
    · obtain ⟨c', hresize, h'⟩ := h.resize hsize
      left
      rw [LruCache.call, hresize, Sized.step, if_neg hsize]
      exact ⟨c', rfl, h'⟩

/-- The output of a call is that of the entries, and so is the cache after it. -/
theorem step_refines (c : LruCache K V) (s : Sized K V) (op : Op K V) (h : Represents c s) :
    (c.step op).2 = (s.step op).2 ∧ Represents (c.step op).1 (s.step op).1 := by
  unfold LruCache.step
  rcases call_refines h op with ⟨c', hcall, h'⟩ | ⟨e, hcall, hstep, -⟩
  · rw [hcall]
    exact ⟨rfl, h'⟩
  · rw [hcall, hstep]
    exact ⟨rfl, h⟩

/-! ## §3. Runs. -/

theorem Sized.answer_ne (s : Sized K V) (op : Op K V) :
    (s.step op).2.1 ≠ .raised .attributeError := by
  cases op <;> simp only [Sized.step, Sized.set, ne_eq] <;> (try split) <;> simp

/-- A list of one free node -/
theorem slots_single : (LruCache.single : LruCache K V).Slots [] [0] := by
  refine ⟨⟨0, [], rfl, ?_⟩, rfl, ?_, ?_, List.nodup_nil, ?_, rfl, ?_⟩
  · exact ⟨List.nodup_singleton 0, List.isChain_cons_cons.mpr ⟨⟨rfl, rfl⟩, .singleton 0⟩⟩
  · intro a k v hmem
    cases hmem
  · intro a _
    rfl
  · intro k a
    refine iff_of_false (by simp [LruCache.single]) ?_
    rintro ⟨v, hmem⟩
    cases hmem
  · intro a ha
    rw [List.mem_singleton.mp ha]
    exact Nat.one_pos

/-- A new cache holds nothing. -/
theorem represents_new {size : Nat} (hsize : size ≠ 0) :
    ∃ c : LruCache K V, LruCache.new size = .ok c ∧ Represents c ⟨size, Lru.empty⟩ := by
  obtain ⟨c, slots, rest, hresize, hslots, hlength, hentries⟩ :=
    (slots_single : (LruCache.single : LruCache K V).Slots [] [0]).resize hsize
  refine ⟨c, ?_, slots, rest, hslots, ?_, hlength⟩
  · unfold LruCache.new
    rw [hresize]
    rfl
  · rw [hentries, List.map_nil, List.take_nil]
    rfl

/-- No pointer or attribute of a cache is ever missing, and every sequence of
operations is answered, and its evicted entries given to the callback, as the
list of the entries used last does it. -/
theorem run_refines (size : Nat) (ops : List (Op K V)) :
    ∃ c : LruCache K V, LruCache.new (size + 1) = .ok c ∧
      Run.trace LruCache.step c ops = Run.trace Sized.step ⟨size + 1, Lru.empty⟩ ops ∧
      (∀ call ∈ Run.trace LruCache.step c ops, call.2.1 ≠ .raised .attributeError) ∧
      (Run.exec LruCache.step c ops).items =
        .ok (Run.exec Sized.step ⟨size + 1, Lru.empty⟩ ops).cache.entries := by
  obtain ⟨c, hnew, hc⟩ := (represents_new (Nat.succ_ne_zero size) :
    ∃ c : LruCache K V, LruCache.new (size + 1) = .ok c ∧ Represents c ⟨size + 1, Lru.empty⟩)
  obtain ⟨htrace, hend⟩ := Run.runs_refine LruCache.step Sized.step Represents step_refines ops _ _ hc
  refine ⟨c, hnew, htrace, ?_, hend.items⟩
  intro call hcall
  rw [htrace] at hcall
  obtain ⟨before, op, after, -, heq⟩ := Run.mem_trace Sized.step hcall
  rw [heq]
  exact Sized.answer_ne _ _

end SeamlessCore.Pylru
