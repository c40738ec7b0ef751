/-
  SeamlessCore.Cells.Projection — writes below the root of a Cell.

  A handle names a place inside the value of a Cell.  A write through it reads
  that value, changes it at the place, and stores the whole value again.  The
  value was parsed for this write, so that a change of it is seen by nobody
  else; here a change is a new value.

  Main definitions:
    * `getItem`, `setItem`, `delItem` — subscripts of a value;
    * `assign`, `remove` — a change at a path;
    * `standaloneCommit`, `standaloneDelete` — the new value of the root;
    * `rootBuffer` — what the root is stored as.

  Source: `seamless/cell_class.py`, `seamless/buffer_class.py`.
-/
import SeamlessCore.Expression.Evaluate

namespace SeamlessCore.Cells

open Python Expression

section

variable {L : Libraries}

/-! ## §1. Subscripts. -/

/-- A key: a string, an integer, or another object -/
inductive Key (L : Libraries) where
  | str (s : PyStr)
  | int (n : Int)
  | other (v : L.Value)

/-- The key as a value -/
def Key.value : Key L → L.Value
  | .str s => .str s
  | .int n => .int n
  | .other v => v

/-- Subscripts of NumPy arrays, strings and objects, and of lists with keys that
are no integers -/
structure Subscripts (L : Libraries) where
  get : L.Value → Key L → Option L.Value
  /-- The value after `value[key] = item` -/
  set : L.Value → Key L → L.Value → Option L.Value
  /-- The value after `del value[key]` -/
  delete : L.Value → Key L → Option L.Value
  /-- A change of `value[key]` is one of `value`. -/
  shares : L.Value → Key L → Bool

/-- The place of `sequence[n]` -/
def position (n : Int) (length : Nat) : Option Nat :=
  let i := if n < 0 then n + length else n
  if 0 ≤ i ∧ i < length then some i.toNat else none

/-- The keys of a dict that was parsed are strings. -/
def sameKey : L.Value → Key L → Bool
  | .str s, .str s' => s = s'
  | _, _ => false

/-- `items[key]` -/
def getEntry (items : List (L.Value × L.Value)) (key : Key L) : Option L.Value :=
  (items.find? fun e => sameKey e.1 key).map Prod.snd

/-- `items[key] = v` -/
def setEntry : List (L.Value × L.Value) → Key L → L.Value → List (L.Value × L.Value)
  | [], key, v => [(key.value, v)]
  | e :: items, key, v =>
    if sameKey e.1 key then (e.1, v) :: items else e :: setEntry items key v

/-- `del items[key]` -/
def delEntry (items : List (L.Value × L.Value)) (key : Key L) :
    Option (List (L.Value × L.Value)) :=
  if items.any fun e => sameKey e.1 key then some (items.eraseP fun e => sameKey e.1 key) else none

variable (S : Subscripts L)

/-- `value[key]` -/
def getItem : L.Value → Key L → Option L.Value
  | .dict items, key => getEntry items key
  | .list items, .int n => (position n items.length).bind fun i => items[i]?
  | .none, _ | .bool _, _ | .int _, _ | .float _, _ | .checksum _, _ => none
  | v, key => S.get v key

/-- The value after `value[key] = item` -/
def setItem : L.Value → Key L → L.Value → Option L.Value
  | .dict items, key, v => some (.dict (setEntry items key v))
  | .list items, .int n, v => (position n items.length).map fun i => .list (items.set i v)
  | .none, _, _ | .bool _, _, _ | .int _, _, _ | .float _, _, _ | .checksum _, _, _ => none
  | parent, key, v => S.set parent key v

/-- The value after `del value[key]` -/
def delItem : L.Value → Key L → Option L.Value
  | .dict items, key => (delEntry items key).map .dict
  | .list items, .int n => (position n items.length).map fun i => .list (items.eraseIdx i)
  | .none, _ | .bool _, _ | .int _, _ | .float _, _ | .checksum _, _ => none
  | v, key => S.delete v key

/-- The value after a change of `value[key]` to `child` -/
def putBack (parent : L.Value) (key : Key L) (child : L.Value) : Option L.Value :=
  let shared : Bool := match parent, key with
    | .dict _, _ => true
    | .list _, .int _ => true
    | v, key => S.shares v key
  if shared then setItem S parent key child else some parent

/-! ## §2. Changes at a path. -/

/-- `if bootstrap and isinstance(parent, dict) and isinstance(component, str) and
component not in parent: parent[component] = {}` -/
def bootstrapItem : L.Value → Key L → L.Value
  | .dict items, .str s =>
    if (getEntry items (.str s)).isSome then .dict items
    else .dict (setEntry items (.str s) (.dict []))
  | v, _ => v

/-- The assignment of `_standalone_commit`, at a path that is not empty -/
def assign (bootstrap : Bool) : L.Value → Key L → List (Key L) → L.Value → Option L.Value
  | parent, key, [], v => setItem S parent key v
  | parent, key, next :: path, v =>
    let parent := if bootstrap then bootstrapItem parent key else parent
    (getItem S parent key).bind fun child =>
      (assign bootstrap child next path v).bind fun child => putBack S parent key child

/-- The deletion of `_standalone_delete` -/
def remove : L.Value → Key L → List (Key L) → Option L.Value
  | parent, key, [] => delItem S parent key
  | parent, key, next :: path =>
    (getItem S parent key).bind fun child =>
      (remove child next path).bind fun child => putBack S parent key child

/-- The value that `_standalone_commit` writes to the root.  `unwired` says that
the root has no input, `root` is its value. -/
def standaloneCommit (unwired : Bool) (root : L.Value) (key : Key L) (path : List (Key L))
    (v : L.Value) : Option L.Value :=
  let names : Bool := (key :: path).all fun
    | .str _ => true
    | _ => false
  match root with
  | .none => if unwired && names then assign S true (.dict []) key path v else none
  | root => assign S unwired root key path v

/-- The value that `_standalone_delete` writes to the root -/
def standaloneDelete (root : L.Value) (key : Key L) (path : List (Key L)) : Option L.Value :=
  match root with
  | .none => none
  | root => remove S root key path

/-! ## §3. Buffers. -/

/-- `Buffer(value, celltype)` -/
def rootBuffer (v : L.Value) : ExpressionCelltype → Option Bytes
  | .ordinary t =>
    match v with
    | .checksum c => if t = .checksum then L.serialize (.checksum c) .checksum else none
    | v => L.serialize v t
  | _ =>
    match v with
    | .checksum _ => none
    | .dict items =>
      let hexed := items.map fun
        | (k, .checksum c) => (k, .str c.hex)
        | e => e
      L.serialize (.dict hexed) .plain
    | v => L.serialize v .plain

/-! ## §4. JSON. -/

/-- What is read where `v` was written as JSON -/
def jsonOf (v : L.Value) : Option L.Value := (L.jsonBuffer v).bind L.parsePlain

/-- `orjson` reads a dict back entry by entry. -/
structure DictLaws (L : Libraries) : Prop where
  loads_null : L.orjsonLoads (py "null") = some .none
  keys : ∀ items b, L.jsonBuffer (.dict items) = some b → ∀ e ∈ items, ∃ k, e.1 = .str k
  values : ∀ items b, L.jsonBuffer (.dict items) = some b →
    ∀ e ∈ items, ∃ v, jsonOf (L := L) e.2 = some v
  entries : ∀ items b, L.jsonBuffer (.dict items) = some b →
    ∃ items', L.parsePlain b = some (.dict items') ∧ (∀ e ∈ items', ∃ k, e.1 = .str k) ∧
      ∀ k v, (.str k, v) ∈ items' ↔ ∃ u, (.str k, u) ∈ items ∧ jsonOf u = some v
  strings : ∀ s v, jsonOf (L := L) (.str s) = some v → v = .str s

end

end SeamlessCore.Cells
