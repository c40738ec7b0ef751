/-
  SeamlessCore.Util.Pylru — the LRU cache, as pointers.

  The cache keeps its nodes in a circular doubly linked list, most recently
  used first, and finds them by key in a table.  The nodes of the list that
  hold nothing are the last ones; their number and that of the others is the
  size of the cache.

  Main definitions:
    * `LruCache` — `lrucache`, with its nodes and their pointers;
    * `Slots` — the nodes in their order, those with an entry before the others.
  Main results:
    * `Slots.getItem`, `Slots.setItem_free`, `Slots.setItem_full`, `Slots.delItem`,
      `Slots.clear`, `Slots.resize`, … — what each operation does to the slots.

  Source: `seamless/util/pylru.py`.
-/
import SeamlessCore.Lib.Dict
import SeamlessCore.Lib.Lru
import SeamlessCore.Lib.Ring

namespace SeamlessCore.Pylru

/-- The identity of a node -/
abbrev Addr := Nat

/-- The exceptions; `attributeError` is a pointer or an attribute that is not there. -/
inductive Error where
  | keyError
  | assertionError
  | attributeError
  deriving DecidableEq, Repr

/-- What a `_dlnode` holds beside its pointers -/
structure Node (K V : Type) where
  empty : Bool
  key : Option K
  value : Option V

/-- `lrucache`, without its callback -/
structure LruCache (K V : Type) where
  table : Dict K Addr
  links : Ring.Links Addr
  nodes : Addr → Node K V
  head : Addr
  listSize : Nat
  /-- The next node to be made -/
  fresh : Addr

variable {K V : Type} [DecidableEq K]

/-- An attribute that has to be there -/
def attr {α : Type} : Option α → Except Error α
  | some a => .ok a
  | none => .error .attributeError

namespace LruCache

/-! ## §1. The pointers. -/

/-- `self.mtf(node)` -/
def mtf (c : LruCache K V) (node : Addr) : Except Error (LruCache K V) :=
  (attr (c.links.moveBefore c.head node)).map fun links => { c with links := links }

/-- The loop of `self.dli()` -/
def dliFrom (c : LruCache K V) : (n : Nat) → Addr → Except Error (List Addr)
  | 0, _ => .ok []
  | n + 1, node =>
    (attr (c.links.next node)).bind fun next => (c.dliFrom n next).map (node :: ·)

/-- `self.dli()` -/
def dli (c : LruCache K V) : Except Error (List Addr) := c.dliFrom c.table.entries.length c.head

/-- The node is made free; the callback gets what it held. -/
def vacate (c : LruCache K V) (node : Addr) : Except Error (List (K × V) × LruCache K V) :=
  if (c.nodes node).empty then .ok ([], c)
  else do
    let key ← attr (c.nodes node).key
    let value ← attr (c.nodes node).value
    if (c.table.lookup key).isNone then .error .keyError
    else return ([(key, value)], { c with table := c.table.erase key })

/-! ## §2. Operations. -/

/-- `key in self` -/
def contains (c : LruCache K V) (k : K) : Bool := (c.table.lookup k).isSome

/-- `len(self)` -/
def len (c : LruCache K V) : Nat := c.table.entries.length

/-- `self.peek(key)` -/
def peek (c : LruCache K V) (k : K) : Except Error V :=
  match c.table.lookup k with
  | none => .error .keyError
  | some node => attr (c.nodes node).value

/-- `self[key]` -/
def getItem (c : LruCache K V) (k : K) : Except Error (V × LruCache K V) :=
  match c.table.lookup k with
  | none => .error .keyError
  | some node => do
    let c ← c.mtf node
    let c := { c with head := node }
    let value ← attr (c.nodes node).value
    return (value, c)

/-- `self[key] = value`, with the calls of the callback -/
def setItem (c : LruCache K V) (k : K) (v : V) :
    Except Error (List (K × V) × LruCache K V) :=
  match c.table.lookup k with
  | some node => do
    let c := { c with
      nodes := Function.update c.nodes node { c.nodes node with value := some v } }
    let c ← c.mtf node
    return ([], { c with head := node })
  | none => do
    -- the tail, which is free unless the cache is full
    let node ← attr (c.links.prev c.head)
    let (evicted, c) ← c.vacate node
    return (evicted, { c with
      nodes := Function.update c.nodes node ⟨false, some k, some v⟩
      table := c.table.set k node
      head := node })

/-- `del self[key]` -/
def delItem (c : LruCache K V) (k : K) : Except Error (LruCache K V) :=
  match c.table.lookup k with
  | none => .error .keyError
  | some node => do
    let c := { c with
      table := c.table.erase k
      nodes := Function.update c.nodes node ⟨true, none, none⟩ }
    let c ← c.mtf node
    let head ← attr (c.links.next node)
    return { c with head := head }

/-- `self.pop(key)` -/
def pop (c : LruCache K V) (k : K) : Except Error (V × LruCache K V) :=
  if c.contains k then do
    let value ← c.peek k
    let c ← c.delItem k
    return (value, c)
  else .error .keyError

/-- `self.popitem()` -/
def popItem (c : LruCache K V) : Except Error ((K × V) × LruCache K V) :=
  if c.len < 1 then .error .keyError
  else do
    let key ← attr (c.nodes c.head).key
    let value ← attr (c.nodes c.head).value
    let c ← c.delItem key
    return ((key, value), c)

/-- `self.setdefault(key, default)` -/
def setDefault (c : LruCache K V) (k : K) (v : V) :
    Except Error (V × List (K × V) × LruCache K V) :=
  if c.contains k then (c.getItem k).map fun r => (r.1, [], r.2)
  else (c.setItem k v).map fun r => (v, r.1, r.2)

/-- `self.items()` -/
def items (c : LruCache K V) : Except Error (List (K × V)) := do
  let nodes ← c.dli
  nodes.mapM fun node => do
    let key ← attr (c.nodes node).key
    let value ← attr (c.nodes node).value
    return (key, value)

/-- `self.clear()` -/
def clear (c : LruCache K V) : Except Error (LruCache K V) := do
  let nodes ← c.dli
  return { c with
    nodes := nodes.foldl (fun held node => Function.update held node ⟨true, none, none⟩) c.nodes
    table := ∅ }

/-- `self.addTailNode(n)` -/
def addTailNode (c : LruCache K V) : (n : Nat) → Except Error (LruCache K V)
  | 0 => .ok c
  | n + 1 => do
    let links ← attr (c.links.append c.head c.fresh)
    let c := { c with
      links := links
      nodes := Function.update c.nodes c.fresh ⟨true, none, none⟩
      listSize := c.listSize + 1
      fresh := c.fresh + 1 }
    c.addTailNode n

/-- One round of the loop of `self.removeTailNode(n)` -/
def removeTail (c : LruCache K V) : Except Error (List (K × V) × LruCache K V) := do
  let node ← attr (c.links.prev c.head)
  let (evicted, c) ← c.vacate node
  let links ← attr (c.links.cut c.head node)
  return (evicted, { c with
    links := links
    nodes := Function.update c.nodes node { c.nodes node with key := none, value := none }
    listSize := c.listSize - 1 })

/-- The loop of `self.removeTailNode(n)` -/
def removeTailNodes (c : LruCache K V) :
    (n : Nat) → Except Error (List (K × V) × LruCache K V)
  | 0 => .ok ([], c)
  | n + 1 => do
    let (evicted, c) ← c.removeTail
    let (rest, c) ← c.removeTailNodes n
    return (evicted ++ rest, c)

/-- `self.removeTailNode(n)` -/
def removeTailNode (c : LruCache K V) (n : Nat) : Except Error (List (K × V) × LruCache K V) :=
  if n < c.listSize then c.removeTailNodes n else .error .assertionError

/-- `self.size(size)` -/
def resize (c : LruCache K V) (size : Nat) : Except Error (List (K × V) × LruCache K V) :=
  if size = 0 then .error .assertionError
  else if c.listSize < size then (c.addTailNode (size - c.listSize)).map fun c => ([], c)
  else if size < c.listSize then c.removeTailNode (c.listSize - size)
  else .ok ([], c)

/-- `lrucache(size)`, before its list is adjusted to the size -/
def single : LruCache K V where
  table := ∅
  links := ⟨fun a => if a = 0 then some 0 else none, fun a => if a = 0 then some 0 else none⟩
  nodes _ := ⟨true, none, none⟩
  head := 0
  listSize := 1
  fresh := 1

/-- `lrucache(size)` -/
def new (size : Nat) : Except Error (LruCache K V) := (single.resize size).map Prod.snd

/-! ## §3. Slots. -/

/-- The nodes of the cache in their order: those that hold an entry, and the free ones. -/
structure Slots (c : LruCache K V) (slots : List (Addr × K × V)) (rest : List Addr) : Prop where
  ring : c.links.Nodes (slots.map Prod.fst ++ rest)
  head : (slots.map Prod.fst ++ rest).head? = some c.head
  filled : ∀ a k v, (a, k, v) ∈ slots → c.nodes a = ⟨false, some k, some v⟩
  free : ∀ a ∈ rest, (c.nodes a).empty = true
  keys : (slots.map fun u => u.2.1).Nodup
  table : ∀ k a, c.table.lookup k = some a ↔ ∃ v, (a, k, v) ∈ slots
  size : c.listSize = slots.length + rest.length
  fresh : ∀ a ∈ slots.map Prod.fst ++ rest, a < c.fresh

variable {c : LruCache K V} {slots pre post : List (Addr × K × V)} {rest : List Addr}
variable {a : Addr} {k : K} {v : V}

/-- The table finds the slot of a key, if there is one. -/
theorem Slots.find (h : Slots c slots rest) (k : K) :
    (c.table.lookup k = none ∧ ∀ u ∈ slots, u.2.1 ≠ k) ∨
      ∃ a v pre post, c.table.lookup k = some a ∧ slots = pre ++ (a, k, v) :: post := by
  cases hfind : c.table.lookup k with
  | none =>
    refine .inl ⟨rfl, fun u hu hk => ?_⟩
    have hsome := (h.table k u.1).mpr ⟨u.2.2, hk ▸ hu⟩
    rw [hfind] at hsome
    cases hsome
  | some a =>
    obtain ⟨v, hmem⟩ := (h.table k a).mp hfind
    obtain ⟨pre, post, hsplit⟩ := List.append_of_mem hmem
    exact .inr ⟨a, v, pre, post, rfl, hsplit⟩

omit [DecidableEq K] in
/-- The slot of a node is moved to the front. -/
theorem mem_front {x : Addr × K × V} (u : Addr × K × V) :
    x ∈ u :: (pre ++ post) ↔ x ∈ pre ++ u :: post := by
  simp only [List.mem_cons, List.mem_append]
  tauto

/-- The other slots have other keys. -/
theorem Slots.other_keys (h : Slots c (pre ++ (a, k, v) :: post) rest) :
    ((pre ++ post).map fun u => u.2.1).Nodup ∧ ∀ u ∈ pre ++ post, u.2.1 ≠ k := by
  have hkeys := (List.nodup_cons.mp
    (((@List.perm_middle _ (a, k, v) pre post).map fun u => u.2.1).nodup_iff.mp h.keys))
  exact ⟨hkeys.2, fun u hu heq => hkeys.1 (List.mem_map.mpr ⟨u, hu, heq⟩)⟩

/-- Without the key of a slot, the table finds the others. -/
theorem Slots.erase_table (h : Slots c (pre ++ (a, k, v) :: post) rest) (l : K) (b : Addr) :
    (c.table.erase k).lookup l = some b ↔ ∃ w, (b, l, w) ∈ pre ++ post := by
  rw [Dict.lookup_erase]
  by_cases hl : l = k
  · rw [if_pos hl]
    refine iff_of_false (by simp) ?_
    rintro ⟨w, hmem⟩
    exact h.other_keys.2 _ hmem hl
  · rw [if_neg hl, h.table l b]
    constructor
    · rintro ⟨w, hmem⟩
      rcases List.mem_cons.mp ((mem_front _).mpr hmem) with heq | hmem
      · obtain ⟨-, rfl, -⟩ : b = a ∧ l = k ∧ w = v := by simpa using heq
        exact absurd rfl hl
      · exact ⟨w, hmem⟩
    · rintro ⟨w, hmem⟩
      exact ⟨w, (mem_front _).mp (List.mem_cons_of_mem _ hmem)⟩

/-- The slots with one of them in front, with another value -/
theorem Slots.front (h : Slots c (pre ++ (a, k, v) :: post) rest) (v' : V)
    {links : Ring.Links Addr}
    (hlinks : links.Nodes (a :: ((pre ++ post).map Prod.fst ++ rest))) :
    Slots { c with
      links := links
      nodes := Function.update c.nodes a ⟨false, some k, some v'⟩
      head := a } ((a, k, v') :: (pre ++ post)) rest := by
  have hnodup : (a :: ((pre ++ post).map Prod.fst ++ rest)).Nodup := hlinks.nodup
  have hother : ∀ b ∈ (pre ++ post).map Prod.fst ++ rest, b ≠ a := fun b hb heq =>
    (List.nodup_cons.mp hnodup).1 (heq ▸ hb)
  -- the same nodes, with one moved to the front
  have hperm : ((pre ++ (a, k, v) :: post).map Prod.fst ++ rest).Perm
      (a :: ((pre ++ post).map Prod.fst ++ rest)) := by
    have hmiddle := (@List.perm_middle _ (a, k, v) pre post).map Prod.fst
    exact hmiddle.append_right rest
  refine ⟨hlinks, rfl, ?_, ?_, ?_, ?_, ?_, ?_⟩
  · intro b l w hmem
    rcases List.mem_cons.mp hmem with heq | hmem
    · obtain ⟨rfl, rfl, rfl⟩ : b = a ∧ l = k ∧ w = v' := by simpa using heq
      exact Function.update_self _ _ _
    · have hb := hother b (List.mem_append_left _ (List.mem_map_of_mem hmem))
      show Function.update c.nodes a _ b = _
      rw [Function.update_of_ne hb]
      exact h.filled b l w ((mem_front _).mp (List.mem_cons_of_mem _ hmem))
  · intro b hb
    show (Function.update c.nodes a _ b).empty = true
    rw [Function.update_of_ne (hother b (List.mem_append_right _ hb))]
    exact h.free b hb
  · have hkeys := ((@List.perm_middle _ (a, k, v) pre post).map fun u => u.2.1).nodup_iff.mp h.keys
    exact hkeys
  · intro l b
    rw [h.table l b]
    constructor
    · rintro ⟨w, hmem⟩
      rcases List.mem_cons.mp ((mem_front _).mpr hmem) with heq | hmem
      · obtain ⟨rfl, rfl, -⟩ : b = a ∧ l = k ∧ w = v := by simpa using heq
        exact ⟨v', List.mem_cons_self⟩
      · exact ⟨w, List.mem_cons_of_mem _ hmem⟩
    · rintro ⟨w, hmem⟩
      rcases List.mem_cons.mp hmem with heq | hmem
      · obtain ⟨rfl, rfl, -⟩ : b = a ∧ l = k ∧ w = v' := by simpa using heq
        exact ⟨v, List.mem_append_right _ List.mem_cons_self⟩
      · exact ⟨w, (mem_front _).mp (List.mem_cons_of_mem _ hmem)⟩
  · have hsize := h.size
    simp only [List.length_append, List.length_cons] at hsize ⊢
    omega
  · intro b hb
    exact h.fresh b (hperm.mem_iff.mpr hb)

/-- A node with a slot is found by its key, and `mtf` puts it in front. -/
theorem Slots.mtf (h : Slots c (pre ++ (a, k, v) :: post) rest) :
    ∃ links, c.links.moveBefore c.head a = some links ∧
      links.Nodes (a :: ((pre ++ post).map Prod.fst ++ rest)) := by
  have hring := h.ring
  have hhead := h.head
  rw [List.map_append, List.map_cons, List.append_assoc, List.cons_append] at hring hhead
  obtain ⟨links, hmove, hnodes⟩ := hring.moveFront hhead
  refine ⟨links, hmove, ?_⟩
  rwa [List.map_append, List.append_assoc]

theorem Slots.getItem (h : Slots c (pre ++ (a, k, v) :: post) rest) :
    ∃ c', c.getItem k = .ok (v, c') ∧ Slots c' ((a, k, v) :: (pre ++ post)) rest := by
  have hmem : (a, k, v) ∈ pre ++ (a, k, v) :: post := List.mem_append_right _ List.mem_cons_self
  have hnode := h.filled a k v hmem
  obtain ⟨links, hmove, hnodes⟩ := h.mtf
  have hfront := h.front v hnodes
  rw [← hnode, Function.update_eq_self] at hfront
  refine ⟨_, ?_, hfront⟩
  unfold LruCache.getItem LruCache.mtf
  rw [(h.table k a).mpr ⟨v, hmem⟩]
  dsimp only
  rw [hmove]
  show (attr (c.nodes a).value >>= _) = _
  rw [hnode]
  rfl

theorem Slots.setItem_present (h : Slots c (pre ++ (a, k, v) :: post) rest) (v' : V) :
    ∃ c', c.setItem k v' = .ok ([], c') ∧ Slots c' ((a, k, v') :: (pre ++ post)) rest := by
  have hmem : (a, k, v) ∈ pre ++ (a, k, v) :: post := List.mem_append_right _ List.mem_cons_self
  have hnode := h.filled a k v hmem
  obtain ⟨links, hmove, hnodes⟩ := h.mtf
  refine ⟨_, ?_, h.front v' hnodes⟩
  unfold LruCache.setItem LruCache.mtf
  rw [(h.table k a).mpr ⟨v, hmem⟩]
  dsimp only
  rw [hmove, hnode]
  rfl

/-- The last node holds the last entry, or nothing. -/
theorem Slots.tail (h : Slots c slots rest) :
    ∃ z, c.links.prev c.head = some z ∧
      ((∃ init, rest = init ++ [z]) ∨
        rest = [] ∧ ∃ init k v, slots = init ++ [(z, k, v)]) := by
  rcases List.eq_nil_or_concat rest with hrest | ⟨init, z, hrest⟩
  · have hring := h.ring
    have hhead := h.head
    rw [hrest, List.append_nil] at hring hhead
    rcases List.eq_nil_or_concat slots with hslots | ⟨init, ⟨z, k, v⟩, hslots⟩
    · rw [hslots] at hhead
      cases hhead
    · rw [List.concat_eq_append] at hslots
      rw [hslots, List.map_append] at hring hhead
      exact ⟨z, hring.prev_head hhead, .inr ⟨hrest, init, k, v, hslots⟩⟩
  · have hring := h.ring
    have hhead := h.head
    rw [List.concat_eq_append] at hrest
    rw [hrest, ← List.append_assoc] at hring hhead
    exact ⟨z, hring.prev_head hhead, .inl ⟨init, hrest⟩⟩

/-- A free node is vacant already. -/
theorem Slots.vacate_free (h : Slots c slots rest) {z : Addr} (hz : z ∈ rest) :
    c.vacate z = .ok ([], c) := by
  unfold LruCache.vacate
  rw [if_pos (h.free z hz)]

/-- A node with a slot gives its entry to the callback. -/
theorem Slots.vacate_slot (h : Slots c slots rest) (hmem : (a, k, v) ∈ slots) :
    c.vacate a = .ok ([(k, v)], { c with table := c.table.erase k }) := by
  have hnode := h.filled a k v hmem
  have htable := (h.table k a).mpr ⟨v, hmem⟩
  unfold LruCache.vacate
  rw [hnode]
  show (if (c.table.lookup k).isNone = true then _ else _) = _
  rw [htable]
  rfl

/-- A new entry is put in the last node, which becomes the first. -/
theorem Slots.refill {z : Addr} {init : List Addr} {kept : List (Addr × K × V)}
    (hring : c.links.Nodes (kept.map Prod.fst ++ init ++ [z]))
    (hfilled : ∀ a k v, (a, k, v) ∈ kept → c.nodes a = ⟨false, some k, some v⟩)
    (hfree : ∀ a ∈ init, (c.nodes a).empty = true)
    (hkeys : (kept.map fun u => u.2.1).Nodup)
    (htable : ∀ k a, c.table.lookup k = some a ↔ ∃ v, (a, k, v) ∈ kept)
    (hsize : c.listSize = kept.length + init.length + 1)
    (hfresh : ∀ a ∈ kept.map Prod.fst ++ init ++ [z], a < c.fresh)
    (hk : ∀ u ∈ kept, u.2.1 ≠ k) (v : V) :
    Slots { c with
      nodes := Function.update c.nodes z ⟨false, some k, some v⟩
      table := c.table.set k z
      head := z } ((z, k, v) :: kept) init := by
  -- the last node becomes the head, so the ring is turned by one
  have hrotated := hring.rotate_last
  have hother : ∀ b ∈ kept.map Prod.fst ++ init, b ≠ z := fun b hb heq =>
    (List.nodup_cons.mp hrotated.nodup).1 (heq ▸ hb)
  refine ⟨hrotated, rfl, ?_, ?_, ?_, ?_, ?_, ?_⟩
  · intro b l w hmem
    rcases List.mem_cons.mp hmem with heq | hmem
    · obtain ⟨rfl, rfl, rfl⟩ : b = z ∧ l = k ∧ w = v := by simpa using heq
      exact Function.update_self _ _ _
    · show Function.update c.nodes z _ b = _
      rw [Function.update_of_ne (hother b (List.mem_append_left _ (List.mem_map_of_mem hmem)))]
      exact hfilled b l w hmem
  · intro b hb
    show (Function.update c.nodes z _ b).empty = true
    rw [Function.update_of_ne (hother b (List.mem_append_right _ hb))]
    exact hfree b hb
  · refine List.nodup_cons.mpr ⟨fun hmem => ?_, hkeys⟩
    obtain ⟨u, hu, heq⟩ := List.mem_map.mp hmem
    exact hk u hu heq
  · intro l b
    show (c.table.set k z).lookup l = some b ↔ _
    rw [Dict.lookup_set]
    -- the table has the new key, and the kept ones as before
    by_cases hl : l = k
    · rw [if_pos hl]
      constructor
      · intro heq
        rw [hl, ← Option.some.inj heq]
        exact ⟨v, List.mem_cons_self⟩
      · rintro ⟨w, hmem⟩
        rcases List.mem_cons.mp hmem with heq | hmem
        · obtain ⟨rfl, -, -⟩ : b = z ∧ l = k ∧ w = v := by simpa using heq
          rfl
        · exact absurd hl (hk _ hmem)
    · rw [if_neg hl, htable l b]
      constructor
      · rintro ⟨w, hmem⟩
        exact ⟨w, List.mem_cons_of_mem _ hmem⟩
      · rintro ⟨w, hmem⟩
        rcases List.mem_cons.mp hmem with heq | hmem
        · exact absurd (by simpa using congrArg (fun u => u.2.1) heq) hl
        · exact ⟨w, hmem⟩
  · show c.listSize = _
    rw [hsize, List.length_cons]
    omega
  · intro b hb
    refine hfresh b ?_
    rcases List.mem_cons.mp hb with rfl | hmem
    · exact List.mem_append_right _ List.mem_cons_self
    · exact List.mem_append_left _ hmem

/-- There is a free node for a new key. -/
theorem Slots.setItem_free {z : Addr} {init : List Addr} (h : Slots c slots (init ++ [z]))
    (hk : ∀ u ∈ slots, u.2.1 ≠ k) (habsent : c.table.lookup k = none) (v : V) :
    ∃ c', c.setItem k v = .ok ([], c') ∧ Slots c' ((z, k, v) :: slots) init := by
  have hring := h.ring
  have hhead := h.head
  rw [← List.append_assoc] at hring hhead
  have hprev := hring.prev_head hhead
  refine ⟨_, ?_, Slots.refill hring h.filled
    (fun a ha => h.free a (List.mem_append_left _ ha)) h.keys h.table ?_ ?_ hk v⟩
  · unfold LruCache.setItem
    rw [habsent]
    dsimp only
    rw [hprev]
    show (c.vacate z >>= _) = _
    rw [h.vacate_free (List.mem_append_right _ List.mem_cons_self)]
    rfl
  · rw [h.size, List.length_append]
    rfl
  · intro a ha
    rw [List.append_assoc] at ha
    exact h.fresh a ha

/-- In a full cache a new key takes the place of the last one. -/
theorem Slots.setItem_full {z : Addr} {k₀ : K} {v₀ : V} {init : List (Addr × K × V)}
    (h : Slots c (init ++ [(z, k₀, v₀)]) []) (hk : ∀ u ∈ init ++ [(z, k₀, v₀)], u.2.1 ≠ k)
    (habsent : c.table.lookup k = none) (v : V) :
    ∃ c', c.setItem k v = .ok ([(k₀, v₀)], c') ∧ Slots c' ((z, k, v) :: init) [] := by
  have hring := h.ring
  have hhead := h.head
  rw [List.append_nil, List.map_append] at hring hhead
  have hprev := hring.prev_head hhead
  have hlast : (z, k₀, v₀) ∈ init ++ [(z, k₀, v₀)] := List.mem_append_right _ List.mem_cons_self
  have hvacate := h.vacate_slot hlast
  have hsame : init ++ [] = init := List.append_nil init
  have hkeys := h.other_keys.1
  have htable := h.erase_table
  rw [hsame] at hkeys htable
  refine ⟨_, ?_, @Slots.refill _ _ _ { c with table := c.table.erase k₀ } _ z [] init
    (by simpa using hring) (fun a k v hmem => h.filled a k v (List.mem_append_left _ hmem)) (by simp)
    hkeys htable ?_ ?_ (fun u hu => hk u (List.mem_append_left _ hu)) v⟩
  · -- the last node is vacated, and becomes the head with the new key
    unfold LruCache.setItem
    rw [habsent]
    dsimp only
    rw [hprev]
    show (c.vacate z >>= _) = _
    rw [hvacate]
    rfl
  · show c.listSize = _
    rw [h.size, List.length_append]
    rfl
  · intro b hb
    refine h.fresh b ?_
    simpa using hb

/-- The node of a deleted key is the last free one. -/
theorem Slots.delItem (h : Slots c (pre ++ (a, k, v) :: post) rest) :
    ∃ c', c.delItem k = .ok c' ∧ Slots c' (pre ++ post) (rest ++ [a]) := by
  have hmem : (a, k, v) ∈ pre ++ (a, k, v) :: post := List.mem_append_right _ List.mem_cons_self
  obtain ⟨links, hmove, hnodes⟩ := h.mtf
  obtain ⟨b, hnext, hhead, hring⟩ := hnodes.next_head
  have hother : ∀ x ∈ (pre ++ post).map Prod.fst ++ rest, x ≠ a := fun x hx heq =>
    (List.nodup_cons.mp hnodes.nodup).1 (heq ▸ hx)
  -- the node is moved to the front, made free, and the head goes one further
  refine ⟨{ c with
      table := c.table.erase k
      nodes := Function.update c.nodes a ⟨true, none, none⟩
      links := links
      head := b }, ?_, ?_⟩
  · unfold LruCache.delItem LruCache.mtf
    rw [(h.table k a).mpr ⟨v, hmem⟩]
    dsimp only
    rw [hmove]
    show (attr (links.next a) >>= _) = _
    rw [hnext]
    rfl
  refine ⟨?_, ?_, ?_, ?_, h.other_keys.1, h.erase_table, ?_, ?_⟩
  · rwa [← List.append_assoc]
  · rwa [← List.append_assoc]
  · intro x l w hx
    show Function.update c.nodes a _ x = _
    rw [Function.update_of_ne (hother x (List.mem_append_left _ (List.mem_map_of_mem hx)))]
    exact h.filled x l w ((mem_front _).mp (List.mem_cons_of_mem _ hx))
  · intro x hx
    show (Function.update c.nodes a _ x).empty = true
    rcases List.mem_append.mp hx with hx | hx
    · rw [Function.update_of_ne (hother x (List.mem_append_right _ hx))]
      exact h.free x hx
    · rw [List.mem_singleton.mp hx, Function.update_self]
  · have hsize := h.size
    simp only [List.length_append, List.length_cons, List.length_nil] at hsize ⊢
    omega
  · intro x hx
    refine h.fresh x ?_
    simp only [List.map_append, List.map_cons, List.mem_append, List.mem_cons, List.not_mem_nil,
      or_false] at hx ⊢
    tauto

/-- The table has a key for each slot. -/
theorem Slots.length_table (h : Slots c slots rest) : c.table.entries.length = slots.length := by
  have hmem : ∀ k, k ∈ c.table.entries.map Sigma.fst ↔ k ∈ slots.map fun u => u.2.1 := by
    intro k
    have hkey : k ∈ c.table.entries.map Sigma.fst ↔ k ∈ c.table := Iff.rfl
    rw [hkey, ← AList.lookup_isSome, Option.isSome_iff_exists]
    constructor
    · rintro ⟨a, ha⟩
      obtain ⟨v, hv⟩ := (h.table k a).mp ha
      exact List.mem_map.mpr ⟨(a, k, v), hv, rfl⟩
    · intro hk
      obtain ⟨⟨a, l, v⟩, hu, rfl⟩ := List.mem_map.mp hk
      exact ⟨a, (h.table l a).mpr ⟨v, hu⟩⟩
  -- two lists of distinct keys with the same elements
  have hperm := (List.perm_ext_iff_of_nodup c.table.keys_nodup h.keys).mpr hmem
  have hlength := hperm.length_eq
  rwa [AList.keys, List.keys, List.length_map, List.length_map] at hlength

/-- The walk from the head gets to the nodes of the slots. -/
theorem Slots.dli (h : Slots c slots rest) : c.dli = .ok (slots.map Prod.fst) := by
  -- the walk, by induction on the part of the ring ahead of it
  have hwalk : ∀ (l : List Addr) (pre post : List Addr) (a : Addr),
      slots.map Prod.fst ++ rest = pre ++ (l ++ post) → (l ++ post).head? = some a ∨ l = [] →
      c.dliFrom l.length a = .ok l := by
    intro l
    induction l with
    | nil => exact fun _ _ _ _ _ => rfl
    | cons b l ih =>
      intro pre post a heq hstart
      obtain rfl : b = a := by simpa using hstart
      obtain ⟨x, hx⟩ := h.ring.next_isSome (a := b) (by rw [heq]; simp)
      show ((attr (c.links.next b)).bind fun next => (c.dliFrom l.length next).map (b :: ·)) = _
      rw [hx]
      have hrest : c.dliFrom l.length x = .ok l := by
        refine ih (pre ++ [b]) post x (by rw [heq]; simp) ?_
        cases hl : l ++ post with
        | nil => exact .inr (List.append_eq_nil_iff.mp hl).1
        | cons y ys =>
          left
          have hy : c.links.next b = some y :=
            h.ring.next_of_split (heq.trans (by rw [List.cons_append, hl]))
          rw [← hx, hy]
          rfl
      show (c.dliFrom l.length x).map (b :: ·) = _
      rw [hrest]
      rfl
  unfold LruCache.dli
  have hlength : c.table.entries.length = (slots.map Prod.fst).length := by
    rw [h.length_table, List.length_map]
  rw [hlength]
  refine hwalk (slots.map Prod.fst) [] rest c.head rfl (.inl ?_)
  exact h.head

/-- The items are the entries of the slots, in their order. -/
theorem Slots.items (h : Slots c slots rest) : c.items = .ok (slots.map Prod.snd) := by
  have hread : ∀ l : List (Addr × K × V), (∀ u ∈ l, u ∈ slots) →
      ((l.map Prod.fst).mapM fun node => do
        let key ← attr (c.nodes node).key
        let value ← attr (c.nodes node).value
        return (key, value)) = (Except.ok (l.map Prod.snd) : Except Error (List (K × V))) := by
    intro l
    induction l with
    | nil => exact fun _ => rfl
    | cons u l ih =>
      intro hl
      obtain ⟨a, k, v⟩ := u
      rw [List.map_cons, List.mapM_cons, h.filled a k v (hl _ List.mem_cons_self),
        ih fun u hu => hl u (List.mem_cons_of_mem _ hu)]
      rfl
  unfold LruCache.items
  rw [h.dli]
  exact hread slots fun u hu => hu

omit [DecidableEq K] in
/-- The nodes of a list are made free. -/
theorem foldl_free (l : List Addr) (held : Addr → Node K V) (x : Addr) :
    l.foldl (fun held node => Function.update held node ⟨true, none, none⟩) held x =
      if x ∈ l then ⟨true, none, none⟩ else held x := by
  induction l generalizing held with
  | nil => rfl
  | cons a l ih =>
    rw [List.foldl_cons, ih]
    by_cases hx : x ∈ l
    · simp [hx]
    · by_cases hxa : x = a
      · simp [hxa]
      · simp [hx, hxa]

/-- A cleared cache has the same nodes, all of them free. -/
theorem Slots.clear (h : Slots c slots rest) :
    ∃ c', c.clear = .ok c' ∧ Slots c' [] (slots.map Prod.fst ++ rest) := by
  refine ⟨{ c with
    nodes := (slots.map Prod.fst).foldl
      (fun held node => Function.update held node ⟨true, none, none⟩) c.nodes
    table := ∅ }, ?_, h.ring, h.head, ?_, ?_, List.nodup_nil, ?_, ?_, h.fresh⟩
  · unfold LruCache.clear
    rw [h.dli]
    rfl
  · intro b l w hmem
    cases hmem
  · intro x hx
    dsimp only
    rw [foldl_free]
    split
    · rfl
    next hx' => exact h.free x ((List.mem_append.mp hx).resolve_left hx')
  · intro l b
    refine iff_of_false (by simp) ?_
    rintro ⟨w, hmem⟩
    cases hmem
  · show c.listSize = _
    rw [h.size, List.length_append, List.length_map]
    simp

/-- New nodes are the last free ones. -/
theorem Slots.addTailNode (n : Nat) : ∀ {c : LruCache K V} {rest : List Addr}, Slots c slots rest →
    ∃ c' new, c.addTailNode n = .ok c' ∧ new.length = n ∧ Slots c' slots (rest ++ new) := by
  induction n with
  | zero =>
    intro c rest h
    exact ⟨c, [], rfl, rfl, by simpa using h⟩
  | succ n ih =>
    intro c rest h
    -- an address that was never used
    have hnew : c.fresh ∉ slots.map Prod.fst ++ rest := fun hmem =>
      absurd (h.fresh c.fresh hmem) (lt_irrefl _)
    obtain ⟨links, happend, hnodes⟩ := h.ring.append h.head hnew
    have hslots : Slots { c with
        links := links
        nodes := Function.update c.nodes c.fresh ⟨true, none, none⟩
        listSize := c.listSize + 1
        fresh := c.fresh + 1 } slots (rest ++ [c.fresh]) := by
      have hother : ∀ x ∈ slots.map Prod.fst ++ rest, x ≠ c.fresh := fun x hx heq =>
        hnew (heq ▸ hx)
      refine ⟨?_, ?_, ?_, ?_, h.keys, h.table, ?_, ?_⟩
      · rwa [← List.append_assoc]
      · rw [← List.append_assoc, List.head?_append, h.head]
        rfl
      · intro x l w hmem
        show Function.update c.nodes c.fresh _ x = _
        rw [Function.update_of_ne (hother x (List.mem_append_left _ (List.mem_map_of_mem hmem)))]
        exact h.filled x l w hmem
      · intro x hx
        show (Function.update c.nodes c.fresh _ x).empty = true
        rcases List.mem_append.mp hx with hx | hx
        · rw [Function.update_of_ne (hother x (List.mem_append_right _ hx))]
          exact h.free x hx
        · rw [List.mem_singleton.mp hx, Function.update_self]
      · show c.listSize + 1 = _
        rw [h.size, List.length_append]
        rfl
      · intro x hx
        rw [← List.append_assoc] at hx
        rcases List.mem_append.mp hx with hx | hx
        · exact Nat.lt_succ_of_lt (h.fresh x hx)
        · rw [List.mem_singleton.mp hx]
          exact Nat.lt_succ_self _
    obtain ⟨c', new, hadd, hlength, hslots'⟩ := ih hslots
    refine ⟨c', c.fresh :: new, ?_, by rw [List.length_cons, hlength], ?_⟩
    · unfold LruCache.addTailNode
      rw [happend]
      exact hadd
    · rwa [List.append_assoc] at hslots'

/-- Of two nodes or more, the last is taken out. -/
theorem Slots.drop_last (h : Slots c slots rest) (z : Addr) (kept : List (Addr × K × V))
    (init : List Addr)
    (hwhole : slots.map Prod.fst ++ rest = kept.map Prod.fst ++ init ++ [z])
    (hmany : 0 < kept.length + init.length) {table : Dict K Addr}
    (hkept : kept.Sublist slots) (hinit : ∀ a ∈ init, (c.nodes a).empty = true)
    (htable : ∀ k a, table.lookup k = some a ↔ ∃ v, (a, k, v) ∈ kept) :
    ∃ links, c.links.cut c.head z = some links ∧
      Slots { c with
        table := table
        links := links
        nodes := Function.update c.nodes z { c.nodes z with key := none, value := none }
        listSize := c.listSize - 1 } kept init := by
  have hring := h.ring
  have hhead := h.head
  rw [hwhole] at hring hhead
  have hhead' : (kept.map Prod.fst ++ init).head? = some c.head := by
    cases hl : kept.map Prod.fst ++ init with
    | nil =>
      have hlength := congrArg List.length hl
      rw [List.length_append, List.length_map, List.length_nil] at hlength
      omega
    | cons x l =>
      rw [hl] at hhead
      exact hhead
  obtain ⟨links, hcut, hnodes⟩ := hring.cut hhead'
  have hother : ∀ x ∈ kept.map Prod.fst ++ init, x ≠ z := fun x hx heq =>
    (List.nodup_append.mp hring.nodup).2.2 x hx z List.mem_cons_self heq
  refine ⟨links, hcut, hnodes, hhead', ?_, ?_, h.keys.sublist (hkept.map _), htable, ?_, ?_⟩
  · intro x l w hmem
    show Function.update c.nodes z _ x = _
    rw [Function.update_of_ne (hother x (List.mem_append_left _ (List.mem_map_of_mem hmem)))]
    exact h.filled x l w (hkept.subset hmem)
  · intro x hx
    show (Function.update c.nodes z _ x).empty = true
    rw [Function.update_of_ne (hother x (List.mem_append_right _ hx))]
    exact hinit x hx
  · show c.listSize - 1 = _
    have hlength := congrArg List.length hwhole
    simp only [List.length_append, List.length_map, List.length_cons, List.length_nil] at hlength
    rw [h.size]
    omega
  · intro x hx
    refine h.fresh x ?_
    rw [hwhole]
    exact List.mem_append_left _ hx

/-- The last node is taken out, and its entry if it has one. -/
theorem Slots.removeTail (h : Slots c slots rest) (hmany : 1 < slots.length + rest.length) :
    ∃ c' evicted slots' rest', c.removeTail = .ok (evicted, c') ∧ Slots c' slots' rest' ∧
      slots'.length + rest'.length + 1 = slots.length + rest.length ∧
      slots.map Prod.snd = slots'.map Prod.snd ++ evicted ∧
      (evicted = [] ∧ rest ≠ [] ∨ evicted.length = 1 ∧ rest = [] ∧ rest' = []) := by
  obtain ⟨z, hprev, ⟨init, rfl⟩ | ⟨rfl, init, k, v, rfl⟩⟩ := h.tail
  · -- the last node is a free one
    rw [List.length_append, List.length_singleton] at hmany
    obtain ⟨links, hcut, hslots⟩ := h.drop_last z slots init (by simp) (by omega) (List.Sublist.refl _)
      (fun a ha => h.free a (List.mem_append_left _ ha)) h.table
    refine ⟨_, [], slots, init, ?_, hslots, ?_, by simp, .inl ⟨rfl, by simp⟩⟩
    · unfold LruCache.removeTail
      rw [hprev]
      show (c.vacate z >>= _) = _
      rw [h.vacate_free (List.mem_append_right _ List.mem_cons_self)]
      show (attr (c.links.cut c.head z) >>= _) = _
      rw [hcut]
      rfl
    · rw [List.length_append]
      rfl
  · -- the cache is full, and the last entry is given up
    rw [List.length_append, List.length_singleton, List.length_nil] at hmany
    have hlast : (z, k, v) ∈ init ++ [(z, k, v)] := List.mem_append_right _ List.mem_cons_self
    have htable := h.erase_table
    rw [List.append_nil] at htable
    obtain ⟨links, hcut, hslots⟩ := h.drop_last z init [] (by simp) (by simpa using hmany)
      (List.sublist_append_left _ _) (by simp) htable
    refine ⟨_, [(k, v)], init, [], ?_, hslots, by simp, by simp, .inr ⟨rfl, rfl, rfl⟩⟩
    unfold LruCache.removeTail
    rw [hprev]
    show (c.vacate z >>= _) = _
    rw [h.vacate_slot hlast]
    show (attr (c.links.cut c.head z) >>= _) = _
    rw [hcut]
    rfl

/-- The last nodes are taken out, with their entries from the last on. -/
theorem Slots.removeTailNodes (n : Nat) : ∀ {c : LruCache K V} {slots : List (Addr × K × V)}
    {rest : List Addr}, Slots c slots rest → n < slots.length + rest.length →
    ∃ c' evicted slots' rest', c.removeTailNodes n = .ok (evicted, c') ∧ Slots c' slots' rest' ∧
      slots'.length + rest'.length + n = slots.length + rest.length ∧
      slots.map Prod.snd = slots'.map Prod.snd ++ evicted.reverse ∧
      (evicted = [] ∨ rest' = []) ∧ (rest = [] → rest' = []) := by
  induction n with
  | zero =>
    intro c slots rest h _
    exact ⟨c, [], slots, rest, rfl, h, rfl, by simp, .inl rfl, id⟩
  | succ n ih =>
    intro c slots rest h hn
    obtain ⟨c₁, evicted₁, slots₁, rest₁, hremove, hslots₁, hlength₁, hentries₁, hempty₁⟩ :=
      h.removeTail (by omega)
    obtain ⟨c', evicted, slots', rest', hremoves, hslots', hlength', hentries', hempty', hfull'⟩ :=
      ih hslots₁ (by omega)
    refine ⟨c', evicted₁ ++ evicted, slots', rest', ?_, hslots', by omega, ?_, ?_, ?_⟩
    · unfold LruCache.removeTailNodes
      rw [hremove]
      show (c₁.removeTailNodes n >>= _) = _
      rw [hremoves]
      rfl
    · have hreverse : evicted₁.reverse = evicted₁ := by
        rcases hempty₁ with ⟨rfl, -⟩ | ⟨hone, -⟩
        · rfl
        · obtain ⟨e, rfl⟩ := List.length_eq_one_iff.mp hone
          rfl
      rw [hentries₁, hentries', List.reverse_append, hreverse, List.append_assoc]
    · rcases hempty₁ with ⟨rfl, -⟩ | ⟨-, -, hrest₁⟩
      · exact hempty'
      · exact .inr (hfull' hrest₁)
    · intro hrest
      rcases hempty₁ with ⟨-, hne⟩ | ⟨-, -, hrest₁⟩
      · exact absurd hrest hne
      · exact hfull' hrest₁

/-- Another size: the entries that do not fit are given up, the last one first. -/
theorem Slots.resize (h : Slots c slots rest) {size : Nat}
    (hsize : size ≠ 0) :
    ∃ c' slots' rest',
      c.resize size = .ok (((slots.map Prod.snd).drop size).reverse, c') ∧ Slots c' slots' rest' ∧
      slots'.length + rest'.length = size ∧ slots'.map Prod.snd = (slots.map Prod.snd).take size := by
  have hkept : ∀ {n : Nat}, slots.length ≤ n →
      (slots.map Prod.snd).drop n = [] ∧ (slots.map Prod.snd).take n = slots.map Prod.snd := by
    intro n hn
    have hlength : (slots.map Prod.snd).length ≤ n := by rwa [List.length_map]
    exact ⟨List.drop_of_length_le hlength, List.take_of_length_le hlength⟩
  unfold LruCache.resize
  rw [if_neg hsize, h.size]
  by_cases hgrow : slots.length + rest.length < size
  · obtain ⟨c', new, hadd, hnew, hslots⟩ := h.addTailNode (size - (slots.length + rest.length))
    obtain ⟨hdrop, htake⟩ := hkept (n := size) (by omega)
    refine ⟨c', slots, rest ++ new, ?_, hslots, ?_, htake.symm⟩
    · rw [if_pos hgrow, hadd, hdrop]
      rfl
    · rw [List.length_append]
      omega
  · rw [if_neg hgrow]
    by_cases hshrink : size < slots.length + rest.length
    · obtain ⟨c', evicted, slots', rest', hremove, hslots, hlength, hentries, hempty, -⟩ :=
        h.removeTailNodes (slots.length + rest.length - size) (by omega)
      have hwhole : (slots.map Prod.snd).take size = slots'.map Prod.snd ∧
          (slots.map Prod.snd).drop size = evicted.reverse := by
        rcases hempty with rfl | rfl
        · rw [List.reverse_nil, List.append_nil] at hentries
          have hsame := congrArg List.length hentries
          rw [List.length_map, List.length_map] at hsame
          obtain ⟨hdrop, htake⟩ := hkept (n := size) (by omega)
          exact ⟨htake.trans hentries, hdrop⟩
        · -- the cache is full: its entries are the first ones
          have hfull : (slots'.map Prod.snd).length = size := by
            rw [List.length_map]
            rw [List.length_nil] at hlength
            omega
          rw [hentries]
          exact ⟨List.take_left' hfull, List.drop_left' hfull⟩
      refine ⟨c', slots', rest', ?_, hslots, by omega, hwhole.1.symm⟩
      rw [if_pos hshrink]
      unfold LruCache.removeTailNode
      rw [h.size, if_pos (by omega), hremove, hwhole.2, List.reverse_reverse]
    · obtain ⟨hdrop, htake⟩ := hkept (n := size) (by omega)
      refine ⟨c, slots, rest, ?_, h, by omega, htake.symm⟩
      rw [if_neg hshrink, hdrop]
      rfl

end LruCache

end SeamlessCore.Pylru
