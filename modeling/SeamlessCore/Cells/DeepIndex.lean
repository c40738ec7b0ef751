/-
  SeamlessCore.Cells.DeepIndex — members of deep cells, written one by one.

  The root of a deep cell stores an index: a flat dict from names to checksums.
  A member is assigned as a value, a buffer or a checksum, changed in place, or
  deleted.  The first three store the checksum of the member.  An augmented
  assignment stores the new value itself, and the index is not checked when it
  is written.

  Main results:
    * `write_accepted` — what is written is read back as an index exactly when
      every member is written as a checksum;
    * `step_accepted` — every operation;
    * `index_stays_flat` — every run.

  Source: `seamless/cell_class.py`, `seamless/checksum/deep.py`.
-/
import SeamlessCore.Cells.Small
import SeamlessCore.Lib.Run

namespace SeamlessCore.Cells

open Python Lazy Expression Libraries

section

variable {L : Libraries}

/-! ## §1. The operations. -/

/-- What an operation stores for a member.  `celltype` is that of the handle;
for an item of the root it is that of the root. -/
inductive Member (L : Libraries) where
  | value (v : L.Value) (celltype : ExpressionCelltype)
  | buffer (b : Bytes) (celltype : ExpressionCelltype)
  /-- A checksum that was converted and resolved; `none` is an exception. -/
  | checksum (c : Option Checksum)
  /-- What the operator gives for the current value; `none` is an exception. -/
  | augmented (updated : Option L.Value)

/-- `_checksum_for_buffer(buffer, celltype)` -/
def checksumForBuffer (known : Knowledge) (b : Bytes) (t : ExpressionCelltype) : Option Checksum :=
  let b := if t = .ordinary .bytes ∧ b = [] then nullBuffer else b
  (deserializeForExpression (L := L) known b t).map fun _ => L.sha256 b

/-- The value that is committed -/
def Member.committed (known : Knowledge) : Member L → Option L.Value
  | .value v t => (rootBuffer v t).map fun b => .checksum (L.sha256 b)
  | .buffer b t => (checksumForBuffer (L := L) known b t).map .checksum
  | .checksum c => c.map .checksum
  | .augmented updated => updated

/-- A member operation; the path is not empty. -/
inductive MemberOp (L : Libraries) where
  | write (known : Knowledge) (key : Key L) (path : List (Key L)) (member : Member L)
  | delete (known : Knowledge) (key : Key L) (path : List (Key L))

/-- `target.value` of a deep cell, where `index` is the buffer of its input;
the value of `None` is also that of null. -/
def indexValue (known : Knowledge) (t : ExpressionCelltype) : Option Bytes → Option L.Value
  | none => some .none
  | some b =>
    if L.sha256 b ∈ L.nullChecksums then some .none
    else deserializeForExpression known b t

variable (S : Subscripts L) (t : ExpressionCelltype)

/-- The buffer that an operation stores as the index; `none` is an exception. -/
def memberBuffer (index : Option Bytes) : MemberOp L → Option Bytes
  | .write known key path member =>
    (member.committed known).bind fun v =>
      (indexValue known t index).bind fun root =>
        (standaloneCommit S index.isNone root key path v).bind fun root => rootBuffer root t
  | .delete known key path =>
    (indexValue known t index).bind fun root =>
      (standaloneDelete S root key path).bind fun root => rootBuffer root t

/-- One operation; the output says that it succeeds. -/
def memberStep (index : Option Bytes) (op : MemberOp L) : Option Bytes × Bool :=
  match memberBuffer S t index op with
  | some b => (some b, true)
  | none => (index, false)

/-- A Cell without input, or with an index that is accepted again -/
def AcceptedIndex : Option Bytes → Prop
  | none => True
  | some b => (deepIndex (L := L) (fun _ => none) b).isSome = true

instance : DecidablePred (AcceptedIndex (L := L))
  | none => isTrue trivial
  | some b => inferInstanceAs (Decidable ((deepIndex (L := L) (fun _ => none) b).isSome = true))

end

/-! ## §2. Members. -/

section

variable {L : Libraries}

/-- The value is written as a lower-case checksum. -/
def WrittenAsMember (v : L.Value) : Prop :=
  ∃ w, jsonOf (unchecksum v) = some w ∧ (deepMember w).isSome = true

theorem deepMember_hex (c : Checksum) : deepMember (L := L) (.str c.hex) = some c := by
  have hlength : c.hex.length = 64 := by
    show (hex c.digest).length = 64
    rw [length_hex, c.length_eq]
  have hdigits : c.hex.all (· ∈ py "0123456789abcdef") = true := by
    apply List.all_eq_true.mpr
    intro d hd
    obtain ⟨x, -, hx⟩ := List.mem_flatMap.mp hd
    obtain ⟨m, rfl⟩ := mem_hexDigits hx
    have hmod : hexDigit m = hexDigit (m % 16) := by
      unfold hexDigit
      simp only [Nat.mod_mod]
    rw [hmod]
    have hm : m % 16 < 16 := Nat.mod_lt m (by decide)
    revert hm
    generalize m % 16 = k
    intro hk
    interval_cases k <;> decide
  show (if _ then _ else _) = _
  rw [if_pos ⟨hlength, hdigits⟩]
  exact Checksum.ofStr_hex c

theorem writtenAsMember_checksum (hD : DictLaws L) {c : Checksum}
    (h : ∃ v, jsonOf (L := L) (.str c.hex) = some v) : WrittenAsMember (L := L) (.checksum c) := by
  obtain ⟨v, hv⟩ := h
  refine ⟨v, hv, ?_⟩
  rw [hD.strings _ v hv, deepMember_hex]
  rfl

/-- A dict is no checksum. -/
theorem not_writtenAsMember_dict (hD : DictLaws L) (items : List (L.Value × L.Value)) :
    ¬ WrittenAsMember (.dict items) := by
  rintro ⟨w, hw, hmember⟩
  obtain ⟨b, hb, hparse⟩ := Option.bind_eq_some_iff.mp hw
  obtain ⟨items', hitems', -⟩ := hD.entries _ b hb
  rw [hitems'] at hparse
  rw [← Option.some.inj hparse] at hmember
  cases hmember

/-! ## §3. Reading an index. -/

/-- A dict is no constant: it is read as it was parsed. -/
theorem contentValue_dict (hL : L.JsonLaws) (hC : L.ConstantsUnique) (hD : DictLaws L) {b : Bytes}
    {items : List (L.Value × L.Value)} (h : L.parsePlain b = some (.dict items)) :
    L.contentValue b .plain = some (.dict items) := by
  have hnull : L.sha256 b ∉ L.nullChecksums := by
    intro hmem
    obtain ⟨constant, hconstant, hsha⟩ := List.mem_map.mp hmem
    have hb := hC constant (List.mem_append_left _ (List.mem_append_left _ hconstant)) b hsha.symm
    have hloads : L.parsePlain b = some .none := by
      rw [hb]
      simp only [nullBuffers, List.mem_cons, List.not_mem_nil, or_false] at hconstant
      rcases hconstant with rfl | rfl
      · exact hD.loads_null
      · exact hD.loads_null
    rw [hloads] at h
    cases h
  have hbool : L.sha256 b ∉ L.trueChecksums ++ L.falseChecksums := by
    intro hmem
    obtain ⟨hkind, -⟩ := L.boolBuffer_json hL (L.boolBuffer_of_checksum hC hmem)
    obtain ⟨text, -, hloads, hkf, -⟩ := L.parsePlain_some hL h
    unfold jsonKindAndFlags at hkf
    rw [hloads, hkind] at hkf
    cases hkf
  have hvirtual : L.virtualValue (L.sha256 b) .plain = .notVirtual := by
    rw [L.virtualValue_other hnull hbool, if_neg (by simp)]
  obtain ⟨v, hv⟩ := L.valid_iff.mp (valid_plain hL h)
  have hbody := (L.body_of_valid hv hvirtual).1
  have heq : L.parsePlain b = some v := hbody
  rw [h] at heq
  rw [hv, ← Option.some.inj heq]

/-- An index: string keys, and members that are checksums -/
theorem validateDeepStructure_isSome (items : List (L.Value × L.Value)) :
    (validateDeepStructure (L := L) (.dict items)).isSome = true ↔
      ∀ e ∈ items, ∃ k, e.1 = .str k ∧ (deepMember e.2).isSome = true := by
  unfold validateDeepStructure
  dsimp only
  induction items with
  | nil => exact ⟨fun _ e he => absurd he List.not_mem_nil, fun _ => rfl⟩
  | cons e items ih =>
    obtain ⟨k, v⟩ := e
    rw [List.mapM_cons, List.forall_mem_cons, ← ih]
    cases k with
    | str k =>
      cases hmember : deepMember (L := L) v with
      | none => simp [hmember]
      | some c =>
        generalize List.mapM (m := Option) _ items = rest
        cases rest with
        | none => simp [hmember]
        | some rest => simp [hmember]
    | _ => simp

/-- An entry with the checksum spelled -/
def hexEntry : L.Value × L.Value → L.Value × L.Value
  | (k, .checksum c) => (k, .str c.hex)
  | e => e

/-- The members of an index are written without checksums. -/
theorem rootBuffer_dict {t : ExpressionCelltype} (ht : t.isDeep = true)
    {items : List (L.Value × L.Value)} {b : Bytes} (h : rootBuffer (.dict items) t = some b) :
    L.jsonBuffer (.dict (items.map fun e => (e.1, unchecksum e.2))) = some b := by
  have hhexed : unchecksumDict (items.map hexEntry) =
      items.map fun e => (e.1, unchecksum e.2) := by
    clear h
    induction items with
    | nil => rfl
    | cons e items ih =>
      obtain ⟨k, v⟩ := e
      rw [List.map_cons, List.map_cons]
      cases v <;> exact congrArg (List.cons _) ih
  have hplain : L.serialize (.dict (items.map hexEntry)) .plain = some b := by
    cases t with
    | ordinary t => cases ht
    | _ => exact h
  unfold serialize serializeValue at hplain
  dsimp only at hplain
  split at hplain
  · unfold unchecksum at hplain
    rw [hhexed] at hplain
    exact hplain
  · cases hplain

/-- An index that was written is accepted exactly when every member is written
as a checksum. -/
theorem write_accepted (hL : L.JsonLaws) (hC : L.ConstantsUnique) (hD : DictLaws L)
    {t : ExpressionCelltype} (ht : t.isDeep = true) {items : List (L.Value × L.Value)} {b : Bytes}
    (h : rootBuffer (.dict items) t = some b) :
    AcceptedIndex (L := L) (some b) ↔ ∀ e ∈ items, WrittenAsMember e.2 := by
  have hb := rootBuffer_dict ht h
  obtain ⟨items', hparse, hkeys', hentries⟩ := hD.entries _ b hb
  have haccepted : AcceptedIndex (L := L) (some b) ↔
      ∀ e ∈ items', ∃ k, e.1 = .str k ∧ (deepMember e.2).isSome = true := by
    show ((L.contentValue b .plain).bind validateDeepStructure).isSome = true ↔ _
    rw [contentValue_dict hL hC hD hparse]
    exact validateDeepStructure_isSome items'
  rw [haccepted]
  constructor
  · intro hmembers e he
    have hmem := List.mem_map_of_mem (f := fun e : L.Value × L.Value => (e.1, unchecksum e.2)) he
    obtain ⟨k, hk⟩ := hD.keys _ b hb _ hmem
    obtain ⟨v, hv⟩ := hD.values _ b hb _ hmem
    have hread : (.str k, v) ∈ items' := by
      apply (hentries k v).mpr
      refine ⟨unchecksum e.2, ?_, hv⟩
      rw [← hk]
      exact hmem
    obtain ⟨-, -, hmember⟩ := hmembers _ hread
    exact ⟨v, hv, hmember⟩
  · intro hwritten e' he'
    obtain ⟨k, hk⟩ := hkeys' e' he'
    refine ⟨k, hk, ?_⟩
    obtain ⟨u, hu, hread⟩ := (hentries k e'.2).mp (by rw [← hk]; exact he')
    obtain ⟨e, he, heq⟩ := List.mem_map.mp hu
    obtain ⟨w, hw, hmember⟩ := hwritten e he
    have hvalue : unchecksum e.2 = u := congrArg Prod.snd heq
    rw [← hvalue, hw] at hread
    rw [← Option.some.inj hread]
    exact hmember

/-! ## §4. One operation. -/

variable {S : Subscripts L}

/-- The values of a stored index are checksums. -/
def IsIndex (items : List (L.Value × L.Value)) : Prop := ∀ e ∈ items, ∃ c, e.2 = .checksum c

/-- The root is read as null, or as an index. -/
theorem indexValue_some {known : Knowledge} {t : ExpressionCelltype} (ht : t.isDeep = true)
    {b : Bytes} {v : L.Value} (h : indexValue known t (some b) = some v) :
    v = .none ∨ ∃ items, v = .dict items ∧ IsIndex items := by
  unfold indexValue at h
  dsimp only at h
  split at h
  · exact .inl (Option.some.inj h).symm
  · right
    have hmap : (deepIndex (L := L) known b).map
        (fun index => PyValue.dict (index.map fun m => (.str m.1, .checksum m.2))) = some v := by
      cases t with
      | ordinary t => cases ht
      | _ => exact h
    obtain ⟨index, -, rfl⟩ := Option.map_eq_some_iff.mp hmap
    refine ⟨_, rfl, fun e he => ?_⟩
    obtain ⟨m, -, rfl⟩ := List.mem_map.mp he
    exact ⟨m.2, rfl⟩

theorem getEntry_mem {items : List (L.Value × L.Value)} {key : Key L} {v : L.Value}
    (h : getEntry items key = some v) : ∃ k, (k, v) ∈ items := by
  obtain ⟨e, he, rfl⟩ := Option.map_eq_some_iff.mp h
  exact ⟨e.1, List.mem_of_find?_eq_some he⟩

/-- There is nothing below a checksum. -/
theorem assign_checksum (bootstrap : Bool) (c : Checksum) (key : Key L) (path : List (Key L))
    (v : L.Value) : assign S bootstrap (.checksum c) key path v = none := by
  cases path with
  | nil => cases key <;> rfl
  | cons next path =>
    unfold assign
    cases bootstrap <;> cases key <;> rfl

theorem remove_checksum (c : Checksum) (key : Key L) (path : List (Key L)) :
    remove S (.checksum c) key path = none := by
  cases path with
  | nil => cases key <;> rfl
  | cons next path => cases key <;> rfl

/-- A member is assigned to an index, and nothing below one. -/
theorem assign_index {items : List (L.Value × L.Value)} (hitems : IsIndex items) {key : Key L}
    {path : List (Key L)} {v root : L.Value}
    (h : assign S false (.dict items) key path v = some root) :
    path = [] ∧ root = .dict (setEntry items key v) := by
  cases path with
  | nil => exact ⟨rfl, (Option.some.inj h).symm⟩
  | cons next path =>
    unfold assign at h
    obtain ⟨child, hchild, hrest⟩ := Option.bind_eq_some_iff.mp h
    obtain ⟨k, hmem⟩ := getEntry_mem (hchild : getEntry items key = some child)
    obtain ⟨c, hc⟩ := hitems _ hmem
    rw [show child = .checksum c from hc, assign_checksum] at hrest
    cases hrest

theorem remove_index {items : List (L.Value × L.Value)} (hitems : IsIndex items) {key : Key L}
    {path : List (Key L)} {root : L.Value} (h : remove S (.dict items) key path = some root) :
    ∃ items', root = .dict items' ∧ IsIndex items' := by
  cases path with
  | nil =>
    obtain ⟨items', hdel, rfl⟩ := Option.map_eq_some_iff.mp
      (h : (delEntry items key).map PyValue.dict = some root)
    refine ⟨items', rfl, fun e he => ?_⟩
    unfold delEntry at hdel
    split at hdel
    · rw [← Option.some.inj hdel] at he
      exact hitems e (List.mem_of_mem_eraseP he)
    · cases hdel
  | cons next path =>
    unfold remove at h
    obtain ⟨child, hchild, hrest⟩ := Option.bind_eq_some_iff.mp h
    obtain ⟨k, hmem⟩ := getEntry_mem (hchild : getEntry items key = some child)
    obtain ⟨c, hc⟩ := hitems _ hmem
    rw [show child = .checksum c from hc, remove_checksum] at hrest
    cases hrest

/-- What is bootstrapped is a dict, and a dict in a dict if the path goes on. -/
theorem assign_bootstrap {key : Key L} {path : List (Key L)} {v root : L.Value}
    (hnames : ∀ k ∈ key :: path, ∃ s, k = .str s)
    (h : assign S true (.dict []) key path v = some root) :
    ∃ child, root = .dict [(key.value, child)] ∧
      (path = [] ∧ child = v ∨ path ≠ [] ∧ ∃ items, child = .dict items) := by
  induction path generalizing key root with
  | nil => exact ⟨v, (Option.some.inj h).symm, .inl ⟨rfl, rfl⟩⟩
  | cons next path ih =>
    obtain ⟨s, rfl⟩ := hnames key List.mem_cons_self
    have hself : sameKey (L := L) (.str s) (.str s) = true := decide_eq_true rfl
    have hget : getItem S (bootstrapItem (.dict []) (.str s)) (.str s) =
        some (.dict [] : L.Value) := by
      show getEntry [(PyValue.str s, PyValue.dict [])] (Key.str s) = _
      unfold getEntry
      have hfind : [((PyValue.str s : L.Value), (PyValue.dict [] : L.Value))].find?
          (fun e => sameKey e.1 (Key.str s)) = some (.str s, .dict []) :=
        List.find?_cons_of_pos hself
      rw [hfind]
      rfl
    unfold assign at h
    rw [if_pos rfl] at h
    dsimp only at h
    rw [hget, Option.bind_some] at h
    obtain ⟨child, hchild, hput⟩ := Option.bind_eq_some_iff.mp h
    obtain ⟨grandchild, rfl, -⟩ := ih (fun k hk => hnames k (List.mem_cons_of_mem _ hk)) hchild
    refine ⟨.dict [(next.value, grandchild)], ?_, .inr ⟨List.cons_ne_nil _ _, _, rfl⟩⟩
    have hroot : some (PyValue.dict (setEntry [(PyValue.str s, PyValue.dict [])] (Key.str s)
        (PyValue.dict [(next.value, grandchild)]))) = some root := hput
    unfold setEntry at hroot
    rw [if_pos hself] at hroot
    exact (Option.some.inj hroot).symm

theorem mem_setEntry {items : List (L.Value × L.Value)} {key : Key L} {v : L.Value}
    {e : L.Value × L.Value} (h : e ∈ setEntry items key v) : e.2 = v ∨ e ∈ items := by
  induction items with
  | nil =>
    rw [List.mem_singleton.mp h]
    exact .inl rfl
  | cons e' items ih =>
    unfold setEntry at h
    split at h
    · rcases List.mem_cons.mp h with rfl | h
      · exact .inl rfl
      · exact .inr (List.mem_cons_of_mem _ h)
    · rcases List.mem_cons.mp h with rfl | h
      · exact .inr List.mem_cons_self
      · exact (ih h).imp id (List.mem_cons_of_mem _)

theorem setEntry_mem (items : List (L.Value × L.Value)) (key : Key L) (v : L.Value) :
    ∃ k, (k, v) ∈ setEntry items key v := by
  induction items with
  | nil => exact ⟨_, List.mem_cons_self⟩
  | cons e items ih =>
    unfold setEntry
    split
    · exact ⟨_, List.mem_cons_self⟩
    · obtain ⟨k, hk⟩ := ih
      exact ⟨k, List.mem_cons_of_mem _ hk⟩

/-- The operation stores no value in the place of a checksum: it does not go
below a member that is not there yet, and the result of an operator is a
lower-case checksum. -/
def KeepsFlat (index : Option Bytes) : MemberOp L → Prop
  | .write _ _ path member =>
    (index = none → path = []) ∧ ∀ v, member = .augmented (some v) → WrittenAsMember v
  | .delete _ _ _ => True

/-- What is committed for a member is a checksum, unless an operator made it. -/
theorem committed_cases {known : Knowledge} {member : Member L} {v : L.Value}
    (h : member.committed known = some v) :
    member = .augmented (some v) ∨ ((∃ c, v = .checksum c) ∧ ∀ u, member ≠ .augmented (some u)) := by
  cases member with
  | augmented updated =>
    have hv : updated = some v := h
    exact .inl (by rw [hv])
  | value u t =>
    obtain ⟨b, -, rfl⟩ := Option.map_eq_some_iff.mp h
    exact .inr ⟨⟨_, rfl⟩, fun u hu => by cases hu⟩
  | buffer b t =>
    obtain ⟨c, -, rfl⟩ := Option.map_eq_some_iff.mp h
    exact .inr ⟨⟨_, rfl⟩, fun u hu => by cases hu⟩
  | checksum c =>
    obtain ⟨c, -, rfl⟩ := Option.map_eq_some_iff.mp h
    exact .inr ⟨⟨_, rfl⟩, fun u hu => by cases hu⟩

/-- A checksum in a dict that is written is written as itself. -/
theorem written_of_index (hD : DictLaws L) {t : ExpressionCelltype} (ht : t.isDeep = true)
    {items : List (L.Value × L.Value)} {b : Bytes} (h : rootBuffer (.dict items) t = some b)
    {e : L.Value × L.Value} (he : e ∈ items) {c : Checksum} (hc : e.2 = .checksum c) :
    WrittenAsMember e.2 := by
  have hmem := List.mem_map_of_mem (f := fun e : L.Value × L.Value => (e.1, unchecksum e.2)) he
  obtain ⟨v, hv⟩ := hD.values _ b (rootBuffer_dict ht h) _ hmem
  rw [hc] at hv ⊢
  exact writtenAsMember_checksum hD ⟨v, hv⟩

/-- A dict of checksums is an index. -/
theorem accepted_of_index (hL : L.JsonLaws) (hC : L.ConstantsUnique) (hD : DictLaws L)
    {t : ExpressionCelltype} (ht : t.isDeep = true) {items : List (L.Value × L.Value)} {b : Bytes}
    (hitems : IsIndex items) (h : rootBuffer (.dict items) t = some b) :
    AcceptedIndex (L := L) (some b) := by
  apply (write_accepted hL hC hD ht h).mpr
  intro e he
  obtain ⟨c, hc⟩ := hitems e he
  exact written_of_index hD ht h he hc

/-- A written value is accepted exactly when it is a checksum or written as one. -/
theorem committed_written (hD : DictLaws L) {t : ExpressionCelltype} (ht : t.isDeep = true)
    {items : List (L.Value × L.Value)} {b : Bytes} (h : rootBuffer (.dict items) t = some b)
    {known : Knowledge} {member : Member L} {k v : L.Value}
    (hv : member.committed known = some v) (he : (k, v) ∈ items) :
    WrittenAsMember v ↔ ∀ u, member = .augmented (some u) → WrittenAsMember u := by
  rcases committed_cases hv with rfl | ⟨⟨c, rfl⟩, hother⟩
  · constructor
    · intro hw u hu
      cases hu
      exact hw
    · exact fun hall => hall v rfl
  · exact ⟨fun _ u hu => absurd hu (hother u), fun _ => written_of_index hD ht h he rfl⟩

/-- A successful operation leaves an index that is accepted exactly when it
stores no value in the place of a checksum. -/
theorem step_accepted (hL : L.JsonLaws) (hC : L.ConstantsUnique) (hD : DictLaws L)
    {t : ExpressionCelltype} (ht : t.isDeep = true) {index : Option Bytes} {op : MemberOp L}
    (hdone : (memberStep S t index op).2 = true) :
    AcceptedIndex (L := L) (memberStep S t index op).1 ↔ KeepsFlat index op := by
  unfold memberStep at hdone ⊢
  cases hbuffer : memberBuffer S t index op with
  | none =>
    rw [hbuffer] at hdone
    cases hdone
  | some b =>
    dsimp only
    cases op with
    | write known key path member =>
      obtain ⟨v, hv, hrest⟩ := Option.bind_eq_some_iff.mp hbuffer
      obtain ⟨root, hroot, hrest⟩ := Option.bind_eq_some_iff.mp hrest
      obtain ⟨root', hcommit, hb⟩ := Option.bind_eq_some_iff.mp hrest
      cases index with
      | none =>
        -- the first write to a Cell without input
        rw [← Option.some.inj hroot] at hcommit
        unfold standaloneCommit at hcommit
        dsimp only at hcommit
        split at hcommit
        next hnames =>
          have hstr : ∀ k ∈ key :: path, ∃ s, k = .str s := by
            intro k hk
            have hname := List.all_eq_true.mp (Bool.and_eq_true_iff.mp hnames).2 k hk
            cases k with
            | str s => exact ⟨s, rfl⟩
            | int n => cases hname
            | other v => cases hname
          obtain ⟨child, rfl, hchild⟩ := assign_bootstrap hstr hcommit
          rw [write_accepted hL hC hD ht hb, List.forall_mem_singleton]
          rcases hchild with ⟨rfl, rfl⟩ | ⟨hpath, items, rfl⟩
          · have hwritten := committed_written hD ht hb hv List.mem_cons_self
            exact hwritten.trans ⟨fun h => ⟨fun _ => rfl, h⟩, fun h => h.2⟩
          · constructor
            · exact fun h => absurd h (not_writtenAsMember_dict hD items)
            · exact fun h => absurd (h.1 rfl) hpath
        next => cases hcommit
      | some index =>
        rcases indexValue_some ht hroot with rfl | ⟨items, rfl, hitems⟩
        · cases hcommit
        · obtain ⟨rfl, rfl⟩ := assign_index hitems hcommit
          obtain ⟨k, hk⟩ := setEntry_mem items key v
          have hwritten := committed_written hD ht hb hv hk
          rw [write_accepted hL hC hD ht hb]
          constructor
          · intro hall
            exact ⟨fun hnone => (by cases hnone), hwritten.mp (hall _ hk)⟩
          · intro hkeeps e he
            rcases mem_setEntry he with heq | hold
            · rw [heq]
              exact hwritten.mpr hkeeps.2
            · obtain ⟨c, hc⟩ := hitems e hold
              exact written_of_index hD ht hb he hc
    | delete known key path =>
      obtain ⟨root, hroot, hrest⟩ := Option.bind_eq_some_iff.mp hbuffer
      obtain ⟨root', hdelete, hb⟩ := Option.bind_eq_some_iff.mp hrest
      refine ⟨fun _ => trivial, fun _ => ?_⟩
      cases index with
      | none =>
        rw [← Option.some.inj hroot] at hdelete
        cases hdelete
      | some index =>
        rcases indexValue_some ht hroot with rfl | ⟨items, rfl, hitems⟩
        · cases hdelete
        · obtain ⟨items', rfl, hindex⟩ := remove_index hitems hdelete
          exact accepted_of_index hL hC hD ht hindex hb

/-- An operation that raises stores nothing. -/
theorem memberStep_failed {t : ExpressionCelltype} {index : Option Bytes} {op : MemberOp L}
    (h : (memberStep S t index op).2 = false) : (memberStep S t index op).1 = index := by
  unfold memberStep at h ⊢
  cases hbuffer : memberBuffer S t index op with
  | none => rfl
  | some b =>
    rw [hbuffer] at h
    cases h

/-! ## §5. Every run. -/

/-- In every run of member operations from an index that is accepted, the index
is accepted in every state exactly when every successful operation stores no
value in the place of a checksum. -/
theorem index_stays_flat (hL : L.JsonLaws) (hC : L.ConstantsUnique) (hD : DictLaws L)
    {t : ExpressionCelltype} (ht : t.isDeep = true) {index : Option Bytes}
    (hindex : AcceptedIndex (L := L) index) (ops : List (MemberOp L)) :
    (∀ before later, ops = before ++ later →
      AcceptedIndex (L := L) (Run.exec (memberStep S t) index before)) ↔
    Run.StepsMeet (memberStep S t)
      (fun _ index op => (memberStep S t index op).2 = true → KeepsFlat index op) index ops := by
  constructor
  · intro haccepted before op later heq hdone
    have hnext := haccepted (before ++ [op]) later (by rw [heq]; simp)
    rw [Run.exec_snoc] at hnext
    exact (step_accepted hL hC hD ht hdone).mp hnext
  · intro hkeeps before
    induction before using List.reverseRecOn with
    | nil => exact fun _ _ => hindex
    | append_singleton before op ih =>
      intro later heq
      have hsplit : ops = before ++ op :: later := by
        rw [heq]
        simp
      rw [Run.exec_snoc]
      cases hdone : (memberStep S t (Run.exec (memberStep S t) index before) op).2 with
      | true => exact (step_accepted hL hC hD ht hdone).mpr (hkeeps before op later hsplit hdone)
      | false =>
        rw [memberStep_failed hdone]
        exact ih (op :: later) hsplit

end

/-! ## §6. An augmented assignment. -/

/-- Subscripts of a value without arrays -/
def noSubscripts : Subscripts pairs where
  get _ _ := none
  set _ _ _ := none
  delete _ _ := none
  shares _ _ := false

/-- The checksum of a member -/
def sampleMember : Checksum := .repeated 5

/-- The buffer of an index with one member -/
def sampleIndex : Bytes :=
  ((rootBuffer (L := pairs) (.dict [(.str (py "k"), .checksum sampleMember)]) .deepcell).getD [])

/-- `root["k"].set(5)` -/
def setMember : List (MemberOp pairs) :=
  [.write (fun _ => none) (.str (py "k")) [] (.value (.int 5) (.ordinary .plain))]

/-- `root["k"] += 2`, where the member is 5 -/
def incrementMember : MemberOp pairs :=
  .write (fun _ => none) (.str (py "k")) [] (.augmented (some (.int 7)))

/-- The index is accepted, and after the increment it is not: it holds a number. -/
theorem sampleIndex_incremented : AcceptedIndex (L := pairs) (some sampleIndex) ∧
    (memberStep noSubscripts .deepcell (some sampleIndex) incrementMember).2 = true ∧
    ¬ AcceptedIndex (L := pairs)
      (memberStep noSubscripts .deepcell (some sampleIndex) incrementMember).1 := by
  decide +kernel

theorem setMember_stays_flat :
    (∀ before later, setMember = before ++ later →
      AcceptedIndex (L := pairs)
        (Run.exec (memberStep noSubscripts .deepcell) (some sampleIndex) before)) ↔
    Run.StepsMeet (memberStep noSubscripts .deepcell)
      (fun _ index op => (memberStep noSubscripts .deepcell index op).2 = true →
        KeepsFlat index op) (some sampleIndex) setMember :=
  index_stays_flat Small.pairs_jsonLaws Small.pairs_constantsUnique Small.pairs_dictLaws rfl
    sampleIndex_incremented.1 setMember

theorem incremented_not_flat : ¬ ∀ (index : Option Bytes) (ops : List (MemberOp pairs)),
    AcceptedIndex (L := pairs) index →
    (∀ call ∈ Run.trace (memberStep noSubscripts .deepcell) index ops, call.2 = true) →
    AcceptedIndex (L := pairs) (Run.exec (memberStep noSubscripts .deepcell) index ops) := by
  intro hclaim
  have hone : ∀ (index : Option Bytes) (op : MemberOp pairs), AcceptedIndex (L := pairs) index →
      (memberStep noSubscripts .deepcell index op).2 = true →
      AcceptedIndex (L := pairs) (memberStep noSubscripts .deepcell index op).1 := by
    intro index op hindex hdone
    exact hclaim index [op] hindex (List.forall_mem_singleton.mpr hdone)
  obtain ⟨hstart, hdone, hrefused⟩ := sampleIndex_incremented
  generalize sampleIndex = index at hstart hdone hrefused
  exact hrefused (hone _ _ hstart hdone)

end SeamlessCore.Cells
