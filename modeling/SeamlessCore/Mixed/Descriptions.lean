/-
  SeamlessCore.Mixed.Descriptions — the descriptions of values.

  The items of a list are described by one of them when their descriptions are
  equal as dicts, so a value is written and read by a description that equals
  its own up to the order of properties.

  Main definitions:
    * `Form.Plain` — the description of a value without NumPy data.
  Main results:
    * `beq_refl`, `beq_trans` — equality as dicts;
    * `getForm_plain` — values that are stored as JSON;
    * `getForm_proper` — the JSON of a description is proper.

  Source: `seamless/util/mixed/get_form.py`.
-/
import SeamlessCore.Mixed.Proper

namespace SeamlessCore.Mixed

open Python

variable {F : Type}

/-! ## §1. Lists. -/

theorem forall₂_mem_right {A B : Type} {R : A → B → Prop} {l : List A} {l' : List B}
    (h : List.Forall₂ R l l') {b : B} (hb : b ∈ l') : ∃ a ∈ l, R a b := by
  induction h with
  | nil => cases hb
  | cons hfirst _ ih =>
    rcases List.mem_cons.mp hb with heq | hb
    · rw [heq]
      exact ⟨_, List.mem_cons_self, hfirst⟩
    · obtain ⟨a, ha, hab⟩ := ih hb
      exact ⟨a, List.mem_cons_of_mem _ ha, hab⟩

/-! ## §2. Descriptions without a storage. -/

mutual

/-- No storage is noted: the description of a value without NumPy data -/
def Form.Plain : Form → Prop
  | .scalar _ s => s = none
  | .emptyList s => s = none
  | .identicalList f _ s => s = none ∧ f.Plain
  | .variedList fs s => s = none ∧ formsPlain fs
  | .object props s => s = none ∧ propertiesPlain props
  | .generic _ _ => False
  | .ndarray _ _ _ _ => False

def formsPlain : List Form → Prop
  | [] => True
  | f :: fs => f.Plain ∧ formsPlain fs

def propertiesPlain : List (PyStr × Form) → Prop
  | [] => True
  | (_, f) :: props => f.Plain ∧ propertiesPlain props

end

/-- The list of a mutual definition, as a condition on its members -/
theorem formsPlain_iff (fs : List Form) : formsPlain fs ↔ ∀ f ∈ fs, f.Plain := by
  induction fs with
  | nil => exact iff_of_true trivial fun _ h => absurd h List.not_mem_nil
  | cons f fs ih =>
    show f.Plain ∧ formsPlain fs ↔ _
    rw [ih, List.forall_mem_cons]

/-- The same for properties -/
theorem propertiesPlain_iff (props : List (PyStr × Form)) :
    propertiesPlain props ↔ ∀ e ∈ props, e.2.Plain := by
  induction props with
  | nil => exact iff_of_true trivial fun _ h => absurd h List.not_mem_nil
  | cons e props ih =>
    show e.2.Plain ∧ propertiesPlain props ↔ _
    rw [ih, List.forall_mem_cons]

/-- Without NumPy data no storage is noted. -/
theorem Form.Plain.storage {f : Form} (h : f.Plain) : f.storage = none := by
  cases f with
  | scalar _ s => exact h
  | emptyList s => exact h
  | identicalList f n s => exact h.1
  | variedList fs s => exact h.1
  | object props s => exact h.1
  | generic _ _ => exact h.elim
  | ndarray _ _ _ _ => exact h.elim

/-- Its parts are then read as those of a mixed buffer. -/
theorem Form.Plain.substorage {f : Form} (h : f.Plain) : f.substorage = .mixedPlain := by
  unfold Form.substorage
  rw [h.storage]
  rfl

/-- The descriptions of the items of a list -/
theorem Form.Plain.itemForms {f : Form} (h : f.Plain) {n : Nat} {fs : List Form}
    (hfs : f.itemForms n = some fs) : ∀ g ∈ fs, g.Plain := by
  intro g hg
  cases f with
  | scalar _ _ => cases hfs
  | generic _ _ => exact h.elim
  | ndarray _ _ _ _ => exact h.elim
  | emptyList s =>
    cases n with
    | zero =>
      obtain rfl := Option.some.inj hfs
      exact absurd hg List.not_mem_nil
    | succ n => cases hfs
  | identicalList f m s =>
    obtain rfl := Option.some.inj hfs
    rw [List.eq_of_mem_replicate hg]
    exact h.2
  | variedList gs s =>
    have heq : (if gs.length = n then some gs else none) = some fs := hfs
    split at heq
    next =>
      obtain rfl := Option.some.inj heq
      exact (formsPlain_iff gs).mp h.2 g hg
    next => cases heq
  | object props s => cases hfs

/-! ## §3. Descriptions that are equal as dicts. -/

/-- Neither that of a list with items nor that of a dict -/
def Form.IsLeaf : Form → Prop
  | .identicalList _ _ _ => False
  | .variedList _ _ => False
  | .object _ _ => False
  | _ => True

/-- Induction over nested descriptions -/
theorem Form.induction {motive : Form → Prop} (leaf : ∀ f : Form, f.IsLeaf → motive f)
    (identicalList : ∀ f n s, motive f → motive (.identicalList f n s))
    (variedList : ∀ fs s, (∀ f ∈ fs, motive f) → motive (.variedList fs s))
    (object : ∀ (props : List (PyStr × Form)) s, (∀ e ∈ props, motive e.2) →
      motive (.object props s)) (f : Form) : motive f := by
  refine @Form.rec motive (fun fs => ∀ f ∈ fs, motive f)
    (fun props => ∀ e ∈ props, motive e.2) (fun e => motive e.2)
    (fun _ _ => leaf _ trivial) (fun _ _ => leaf _ trivial) (fun _ _ _ _ => leaf _ trivial)
    (fun _ => leaf _ trivial) identicalList (fun fs s => variedList fs s)
    (fun props s => object props s) ?_ ?_ ?_ ?_ ?_ f
  · intro f hf
    exact absurd hf List.not_mem_nil
  · intro f fs hf hfs g hg
    rcases List.mem_cons.mp hg with h | h
    · rw [h]
      exact hf
    · exact hfs g h
  · intro e he
    exact absurd he List.not_mem_nil
  · intro e props he hprops d hd
    rcases List.mem_cons.mp hd with h | h
    · rw [h]
      exact he
    · exact hprops d h
  · intro _ _ h
    exact h

/-- The properties of one dict are found in the other, whatever the order. -/
theorem beqProperties_iff (props props' : List (PyStr × Form)) :
    Form.beqProperties props props' = true ↔
      ∀ e ∈ props, ∃ f', props'.lookup e.1 = some f' ∧ e.2.beq f' = true := by
  induction props with
  | nil => exact iff_of_true rfl fun _ h => absurd h List.not_mem_nil
  | cons e props ih =>
    rw [List.forall_mem_cons, ← ih]
    refine (Iff.of_eq (Bool.and_eq_true _ _)).trans (and_congr_left' ?_)
    cases props'.lookup e.1 with
    | none => simp
    | some f' => simp

/-- Lists of descriptions are compared item by item. -/
theorem beqList_iff (fs fs' : List Form) :
    Form.beqList fs fs' = true ↔ List.Forall₂ (fun f f' => f.beq f' = true) fs fs' := by
  induction fs generalizing fs' with
  | nil =>
    cases fs' with
    | nil => exact iff_of_true rfl .nil
    | cons f' fs' => exact iff_of_false (by intro h; cases h) (by intro h; cases h)
  | cons f fs ih =>
    cases fs' with
    | nil => exact iff_of_false (by intro h; cases h) (by intro h; cases h)
    | cons f' fs' =>
      show (f.beq f' && Form.beqList fs fs') = true ↔ _
      rw [Bool.and_eq_true, ih, List.forall₂_cons]

/-- A description without parts equals itself only. -/
theorem beq_leaf {f f' : Form} (hf : f.IsLeaf) : f.beq f' = true ↔ f' = f := by
  cases f with
  | identicalList _ _ _ => exact hf.elim
  | variedList _ _ => exact hf.elim
  | object _ _ => exact hf.elim
  | scalar t s =>
    cases f' with
    | scalar t' s' =>
      show (decide (t = t') && decide (s = s')) = true ↔ _
      simp only [Bool.and_eq_true, decide_eq_true_eq, Form.scalar.injEq]
      exact and_congr eq_comm eq_comm
    | _ => exact iff_of_false (by intro h; cases h) (by intro h; cases h)
  | generic t s =>
    cases f' with
    | generic t' s' =>
      show (decide (t = t') && decide (s = s')) = true ↔ _
      simp only [Bool.and_eq_true, decide_eq_true_eq, Form.generic.injEq]
      exact and_congr eq_comm eq_comm
    | _ => exact iff_of_false (by intro h; cases h) (by intro h; cases h)
  | ndarray t shape strides s =>
    cases f' with
    | ndarray t' shape' strides' s' =>
      show (decide (t = t') && decide (shape = shape') && decide (strides = strides') &&
        decide (s = s')) = true ↔ _
      simp only [Bool.and_eq_true, decide_eq_true_eq, Form.ndarray.injEq, and_assoc]
      exact and_congr eq_comm (and_congr eq_comm (and_congr eq_comm eq_comm))
    | _ => exact iff_of_false (by intro h; cases h) (by intro h; cases h)
  | emptyList s =>
    cases f' with
    | emptyList s' =>
      show decide (s = s') = true ↔ _
      simp only [decide_eq_true_eq, Form.emptyList.injEq]
      exact eq_comm
    | _ => exact iff_of_false (by intro h; cases h) (by intro h; cases h)

/-- What equals the description of a list of equal items -/
theorem beq_identicalList {f f' : Form} {n : Nat} {s : Option Storage} :
    (Form.identicalList f n s).beq f' = true ↔
      ∃ g, f' = .identicalList g n s ∧ f.beq g = true := by
  cases f' with
  | identicalList g m t =>
    show (f.beq g && decide (n = m) && decide (s = t)) = true ↔ _
    simp only [Bool.and_eq_true, decide_eq_true_eq, Form.identicalList.injEq]
    constructor
    · rintro ⟨⟨hbeq, rfl⟩, rfl⟩
      exact ⟨g, ⟨rfl, rfl, rfl⟩, hbeq⟩
    · rintro ⟨g', ⟨rfl, rfl, rfl⟩, hbeq⟩
      exact ⟨⟨hbeq, rfl⟩, rfl⟩
  | _ =>
    refine iff_of_false (by intro h; cases h) fun h => ?_
    obtain ⟨_, heq, _⟩ := h
    cases heq

/-- What equals the description of a list of different items -/
theorem beq_variedList {fs : List Form} {f' : Form} {s : Option Storage} :
    (Form.variedList fs s).beq f' = true ↔
      ∃ gs, f' = .variedList gs s ∧ List.Forall₂ (fun f g => f.beq g = true) fs gs := by
  cases f' with
  | variedList gs t =>
    show (Form.beqList fs gs && decide (s = t)) = true ↔ _
    simp only [Bool.and_eq_true, decide_eq_true_eq, Form.variedList.injEq, beqList_iff]
    constructor
    · rintro ⟨hbeq, rfl⟩
      exact ⟨gs, ⟨rfl, rfl⟩, hbeq⟩
    · rintro ⟨gs', ⟨rfl, rfl⟩, hbeq⟩
      exact ⟨hbeq, rfl⟩
  | _ =>
    refine iff_of_false (by intro h; cases h) fun h => ?_
    obtain ⟨_, heq, _⟩ := h
    cases heq

/-- What equals the description of a dict: as many properties, each found and equal -/
theorem beq_object {props : List (PyStr × Form)} {f' : Form} {s : Option Storage} :
    (Form.object props s).beq f' = true ↔
      ∃ props', f' = .object props' s ∧ props.length = props'.length ∧
        ∀ e ∈ props, ∃ g, props'.lookup e.1 = some g ∧ e.2.beq g = true := by
  cases f' with
  | object props' t =>
    show (decide (props.length = props'.length) && Form.beqProperties props props' &&
      decide (s = t)) = true ↔ _
    simp only [Bool.and_eq_true, decide_eq_true_eq, Form.object.injEq, beqProperties_iff]
    constructor
    · rintro ⟨⟨hlength, hbeq⟩, rfl⟩
      exact ⟨props', ⟨rfl, rfl⟩, hlength, hbeq⟩
    · rintro ⟨props'', ⟨rfl, rfl⟩, hlength, hbeq⟩
      exact ⟨⟨hlength, hbeq⟩, rfl⟩
  | _ =>
    refine iff_of_false (by intro h; cases h) fun h => ?_
    obtain ⟨_, heq, _⟩ := h
    cases heq

/-- Equal descriptions note the same storage. -/
theorem beq_storage {f f' : Form} (h : f.beq f' = true) : f'.storage = f.storage := by
  cases f with
  | identicalList g n s =>
    obtain ⟨g', rfl, -⟩ := beq_identicalList.mp h
    rfl
  | variedList fs s =>
    obtain ⟨fs', rfl, -⟩ := beq_variedList.mp h
    rfl
  | object props s =>
    obtain ⟨props', rfl, -⟩ := beq_object.mp h
    rfl
  | scalar t s => rw [(@beq_leaf (.scalar t s) f' trivial).mp h]
  | generic t s => rw [(@beq_leaf (.generic t s) f' trivial).mp h]
  | ndarray t shape strides s => rw [(@beq_leaf (.ndarray t shape strides s) f' trivial).mp h]
  | emptyList s => rw [(@beq_leaf (.emptyList s) f' trivial).mp h]

/-- Transitivity over the items, from that of each item -/
theorem forall₂_trans {fs gs gs' : List Form}
    (ih : ∀ f ∈ fs, ∀ g g', f.beq g = true → g.beq g' = true → f.beq g' = true)
    (h : List.Forall₂ (fun f g => f.beq g = true) fs gs)
    (h' : List.Forall₂ (fun g g' => g.beq g' = true) gs gs') :
    List.Forall₂ (fun f g' => f.beq g' = true) fs gs' := by
  induction fs generalizing gs gs' with
  | nil =>
    cases h
    exact h'
  | cons f fs ihs =>
    obtain ⟨ihf, ihfs⟩ := List.forall_mem_cons.mp ih
    cases h with
    | cons hg hgs =>
      cases h' with
      | cons hg' hgs' => exact .cons (ihf _ _ hg hg') (ihs ihfs hgs hgs')

/-- Equality as dicts is transitive: the items of a list equal the one that describes them. -/
theorem beq_trans (f : Form) : ∀ f' f'', f.beq f' = true → f'.beq f'' = true → f.beq f'' = true := by
  induction f using Form.induction with
  | leaf f hf =>
    intro f' f'' h h'
    rwa [(beq_leaf hf).mp h] at h'
  | identicalList f n s ih =>
    intro f' f'' h h'
    obtain ⟨g, rfl, hg⟩ := beq_identicalList.mp h
    obtain ⟨g', rfl, hg'⟩ := beq_identicalList.mp h'
    exact beq_identicalList.mpr ⟨g', rfl, ih g g' hg hg'⟩
  | variedList fs s ih =>
    intro f' f'' h h'
    obtain ⟨gs, rfl, hgs⟩ := beq_variedList.mp h
    obtain ⟨gs', rfl, hgs'⟩ := beq_variedList.mp h'
    exact beq_variedList.mpr ⟨gs', rfl, forall₂_trans ih hgs hgs'⟩
  | object props s ih =>
    intro f' f'' h h'
    obtain ⟨props', rfl, hlength, hprops⟩ := beq_object.mp h
    obtain ⟨props'', rfl, hlength', hprops'⟩ := beq_object.mp h'
    refine beq_object.mpr ⟨props'', rfl, hlength.trans hlength', fun e he => ?_⟩
    obtain ⟨g, hlookup, hg⟩ := hprops e he
    obtain ⟨g', hlookup', hg'⟩ := hprops' _ (Assoc.mem_of_lookup hlookup)
    exact ⟨g', hlookup', ih e he g g' hg hg'⟩

/-- The JSON of the properties has their names. -/
theorem keys_jsonProperties (props : List (PyStr × Form)) :
    Assoc.keys (jsonProperties props : List (PyStr × Json F)) = Assoc.keys props := by
  induction props with
  | nil => rfl
  | cons e props ih => exact congrArg (e.1 :: ·) ih

/-- The properties in the JSON of a description -/
theorem properties_proper {props : List (PyStr × Form)} {s : Option Storage}
    (h : ((Form.object props s).json : Json F).Proper) :
    (Assoc.keys props).Nodup ∧ ∀ e ∈ props, (e.2.json : Json F).Proper := by
  cases props with
  | nil => exact ⟨List.nodup_nil, fun e he => absurd he List.not_mem_nil⟩
  | cons p props =>
    -- the entry of the properties is the second one
    obtain ⟨-, -, -, -, ⟨hkeys, hentries⟩, -⟩ := h
    rw [← @keys_jsonProperties F (p :: props)]
    refine ⟨hkeys, ?_⟩
    have hall : ∀ l : List (PyStr × Form), entriesProper (jsonProperties l : List (PyStr × Json F)) →
        ∀ e ∈ l, (e.2.json : Json F).Proper := by
      intro l
      induction l with
      | nil => exact fun _ e he => absurd he List.not_mem_nil
      | cons d l ih =>
        intro hl e he
        rcases List.mem_cons.mp he with rfl | he
        · exact hl.2.1
        · exact ih hl.2.2 e he
    exact hall (p :: props) hentries

/-- The items in the JSON of a description -/
theorem items_proper {fs : List Form} {s : Option Storage}
    (h : ((Form.variedList fs s).json : Json F).Proper) : ∀ f ∈ fs, (f.json : Json F).Proper := by
  obtain ⟨-, -, -, -, hitems, -⟩ := h
  have hall : ∀ l : List Form, jsonsProper (jsonForms l : List (Json F)) →
      ∀ f ∈ l, (f.json : Json F).Proper := by
    intro l
    induction l with
    | nil => exact fun _ f hf => absurd hf List.not_mem_nil
    | cons g l ih =>
      intro hl f hf
      rcases List.mem_cons.mp hf with rfl | hf
      · exact hl.1
      · exact ih hl.2 f hf
  exact hall fs hitems

/-- The one item in the JSON of a description -/
theorem item_proper {f : Form} {n : Nat} {s : Option Storage}
    (h : ((Form.identicalList f n s).json : Json F).Proper) : (f.json : Json F).Proper := by
  obtain ⟨-, -, -, -, hitem, -⟩ := h
  exact hitem

/-- A description equals itself, if no property comes twice. -/
theorem beq_refl (f : Form) : (f.json : Json F).Proper → f.beq f = true := by
  induction f using Form.induction with
  | leaf f hf => exact fun _ => (beq_leaf hf).mpr rfl
  | identicalList f n s ih => exact fun h => beq_identicalList.mpr ⟨f, rfl, ih (item_proper h)⟩
  | variedList fs s ih =>
    intro h
    have hitems := items_proper h
    exact beq_variedList.mpr ⟨fs, rfl, List.forall₂_same.mpr fun f hf => ih f hf (hitems f hf)⟩
  | object props s ih =>
    intro h
    obtain ⟨hnodup, hprops⟩ := properties_proper h
    exact beq_object.mpr ⟨props, rfl, rfl, fun e he =>
      ⟨e.2, Assoc.lookup_of_mem hnodup he, ih e he (hprops e he)⟩⟩

/-- What equals the description of a value without NumPy data is one. -/
theorem beq_plain (f : Form) : ∀ f', f.beq f' = true → f'.Plain → f.Plain := by
  induction f using Form.induction with
  | leaf f hf =>
    intro f' h hplain
    rwa [(beq_leaf hf).mp h] at hplain
  | identicalList f n s ih =>
    intro f' h hplain
    obtain ⟨g, rfl, hg⟩ := beq_identicalList.mp h
    exact ⟨hplain.1, ih g hg hplain.2⟩
  | variedList fs s ih =>
    intro f' h hplain
    obtain ⟨gs, rfl, hgs⟩ := beq_variedList.mp h
    refine ⟨hplain.1, ?_⟩
    have hgsPlain := hplain.2
    clear h hplain
    induction hgs with
    | nil => trivial
    | cons hg _ ihs =>
      obtain ⟨ihf, ihfs⟩ := List.forall_mem_cons.mp ih
      exact ⟨ihf _ hg hgsPlain.1, ihs ihfs hgsPlain.2⟩
  | object props s ih =>
    intro f' h hplain
    obtain ⟨props', rfl, -, hprops⟩ := beq_object.mp h
    refine ⟨hplain.1, (propertiesPlain_iff props).mpr fun e he => ?_⟩
    obtain ⟨g, hlookup, hg⟩ := hprops e he
    exact ih e he g hg ((propertiesPlain_iff props').mp hplain.2 _ (Assoc.mem_of_lookup hlookup))

/-! ## §4. The JSON of descriptions. -/

/-- Entries to which a storage can be added -/
structure EntriesProper (entries : List (PyStr × Json F)) : Prop where
  keys : (Assoc.keys entries).Nodup
  proper : entriesProper entries
  free : py "storage" ∉ Assoc.keys entries

/-- Where no storage is noted yet, one can be. -/
theorem EntriesProper.storage {entries : List (PyStr × Json F)} (h : EntriesProper entries)
    (s : Option Storage) : (Json.dict (entries ++ storageItem s)).Proper := by
  cases s with
  | none =>
    rw [show storageItem none = ([] : List (PyStr × Json F)) from rfl, List.append_nil]
    exact ⟨h.keys, h.proper⟩
  | some s =>
    -- the new entry has a name that no other entry has
    have hname : Encodable (storageName s) := by cases s <;> rfl
    refine ⟨?_, ?_⟩
    · unfold Assoc.keys
      rw [List.map_append, List.nodup_append]
      refine ⟨h.keys, List.nodup_singleton _, fun k hk k' hk' heq => h.free ?_⟩
      have hstorage : k' = py "storage" := by simpa [storageItem] using hk'
      rw [← hstorage, ← heq]
      exact hk
    · rw [entriesProper_iff]
      intro e he
      rcases List.mem_append.mp he with he | he
      · exact (entriesProper_iff entries).mp h.proper e he
      · obtain rfl : e = (py "storage", .str (storageName s)) := by simpa [storageItem] using he
        exact ⟨rfl, hname⟩

/-- Shapes are proper JSON. -/
theorem jsonNats_proper (ns : List Nat) : (jsonNats ns : Json F).Proper := by
  show jsonsProper _
  rw [jsonsProper_iff]
  intro j hj
  obtain ⟨n, -, rfl⟩ := List.mem_map.mp hj
  trivial

/-- So is the order of the fields of a record. -/
theorem names_proper {names : List PyStr} (h : ∀ name ∈ names, Encodable name) :
    (Json.list (names.map .str) : Json F).Proper := by
  show jsonsProper _
  rw [jsonsProper_iff]
  intro j hj
  obtain ⟨name, hname, rfl⟩ := List.mem_map.mp hj
  exact h name hname

/-- The description of a builtin type, with the entries that its kind has -/
theorem builtin_proper (type : ScalarType) (n : Nat) (complex : Bool) (unsigned : Option Bool) :
    EntriesProper ((TForm.builtin type n complex unsigned).items : List (PyStr × Json F)) := by
  show EntriesProper (builtinItems type n complex unsigned : List (PyStr × Json F))
  have hname : Encodable type.name := by cases type <;> rfl
  have hkeys : ∀ keys : List PyStr,
      keys = Assoc.keys (builtinItems type n complex unsigned : List (PyStr × Json F)) →
      keys.Nodup → py "storage" ∉ keys →
      entriesProper (builtinItems type n complex unsigned : List (PyStr × Json F)) →
      EntriesProper (builtinItems type n complex unsigned : List (PyStr × Json F)) := by
    rintro keys rfl hnodup hfree hproper
    exact ⟨hnodup, hproper, hfree⟩
  cases complex with
  | false =>
    cases unsigned with
    | none =>
      exact hkeys [py "type", py "bytesize"] rfl (by decide) (by decide)
        ⟨rfl, hname, rfl, trivial, trivial⟩
    | some b =>
      exact hkeys [py "type", py "bytesize", py "unsigned"] rfl (by decide) (by decide)
        ⟨rfl, hname, rfl, trivial, rfl, trivial, trivial⟩
  | true =>
    cases unsigned with
    | none =>
      exact hkeys [py "type", py "bytesize", py "complex"] rfl (by decide) (by decide)
        ⟨rfl, hname, rfl, trivial, rfl, trivial, trivial⟩
    | some b =>
      exact hkeys [py "type", py "bytesize", py "complex", py "unsigned"] rfl (by decide)
        (by decide) ⟨rfl, hname, rfl, trivial, rfl, trivial, rfl, trivial, trivial⟩

/-- The description of a field that is an array -/
theorem tuple_proper {item : TForm} (shape : List Nat)
    (h : EntriesProper (item.items : List (PyStr × Json F))) :
    EntriesProper (tupleItems item shape : List (PyStr × Json F)) := by
  refine ⟨?_, ⟨rfl, rfl, rfl, ⟨h.keys, h.proper⟩, rfl, trivial, rfl, jsonNats_proper shape, trivial⟩, ?_⟩
  · show [py "type", py "items", py "identical", py "shape"].Nodup
    decide
  · show py "storage" ∉ [py "type", py "items", py "identical", py "shape"]
    decide

/-- The description of a record, whose fields have different names -/
theorem struct_proper {props : TFields} (n : Nat) (hnames : props.names.Nodup)
    (hencodable : ∀ name ∈ props.names, Encodable name)
    (hprops : entriesProper (props.json : List (PyStr × Json F))) :
    EntriesProper ((TForm.struct props n).items : List (PyStr × Json F)) := by
  have hjson : (Json.dict props.json : Json F).Proper := ⟨by rwa [keys_json], hprops⟩
  refine ⟨?_, ⟨rfl, rfl, rfl, hjson, rfl, trivial, rfl, names_proper hencodable, trivial⟩, ?_⟩
  · show [py "type", py "properties", py "bytesize", py "order"].Nodup
    decide
  · show py "storage" ∉ [py "type", py "properties", py "bytesize", py "order"]
    decide

mutual

/-- The JSON of the description of an element type is proper. -/
theorem items_tform_proper (d : DType) {t : TForm} (h : getTformNumpy d = some t) (hd : d.Known) :
    EntriesProper (t.items : List (PyStr × Json F)) := by
  match d with
  | .struct fields =>
    obtain ⟨props, hprops, rfl⟩ := Option.map_eq_some_iff.mp h
    obtain ⟨hnames, hfields⟩ := hd
    obtain ⟨heq, hencodable, hjson⟩ := @json_tfields_proper fields props hprops hfields
    rw [← heq] at hnames
    exact struct_proper _ hnames hencodable hjson
  | .bool =>
    obtain rfl := Option.some.inj h
    exact builtin_proper _ _ _ _
  | .integer n unsigned =>
    obtain rfl := Option.some.inj h
    exact builtin_proper _ _ _ _
  | .number n complex =>
    obtain rfl := Option.some.inj h
    exact builtin_proper _ _ _ _
  | .bytes n =>
    obtain rfl := Option.some.inj h
    exact builtin_proper _ _ _ _
  | .unicode n => exact hd.elim
  | .other => exact hd.elim

theorem json_tfields_proper (fields : Fields) {props : TFields}
    (h : getTformFields fields = some props) (hfields : fields.Known) :
    props.names = fields.names ∧ (∀ name ∈ props.names, Encodable name) ∧
      entriesProper (props.json : List (PyStr × Json F)) := by
  match fields with
  | .nil =>
    obtain rfl := Option.some.inj h
    exact ⟨rfl, fun _ hname => absurd hname List.not_mem_nil, trivial⟩
  | .cons name dtype none rest =>
    obtain ⟨hname, hdtype, -, hrest⟩ := hfields
    rw [getTformFields_cons] at h
    obtain ⟨item, hitem, hmap⟩ := Option.bind_eq_some_iff.mp h
    obtain ⟨props', hprops, rfl⟩ := Option.map_eq_some_iff.mp hmap
    obtain ⟨hnames, hencodable, hjson⟩ := @json_tfields_proper rest props' hprops hrest
    have hproper := @items_tform_proper dtype item hitem hdtype
    refine ⟨congrArg (name :: ·) hnames, ?_, hname, ⟨hproper.keys, hproper.proper⟩, hjson⟩
    exact List.forall_mem_cons.mpr ⟨hname, hencodable⟩
  | .cons name dtype (some shape) rest =>
    obtain ⟨hname, hdtype, -, hrest⟩ := hfields
    rw [getTformFields_array] at h
    obtain ⟨item, hitem, hmap⟩ := Option.bind_eq_some_iff.mp h
    obtain ⟨props', hprops, rfl⟩ := Option.map_eq_some_iff.mp hmap
    obtain ⟨hnames, hencodable, hjson⟩ := @json_tfields_proper rest props' hprops hrest
    have hproper : EntriesProper (item.items : List (PyStr × Json F)) := by
      cases dtype with
      | struct fields => cases hitem
      | unicode n => exact hdtype.elim
      | other => exact hdtype.elim
      | _ =>
        obtain rfl := Option.some.inj hitem
        exact builtin_proper _ _ _ _
    have htuple := tuple_proper shape hproper
    refine ⟨congrArg (name :: ·) hnames, ?_, hname, ⟨htuple.keys, htuple.proper⟩, hjson⟩
    exact List.forall_mem_cons.mpr ⟨hname, hencodable⟩

end

/-- The description of an array, with its strides where it is not contiguous -/
theorem ndarray_proper {items : TForm} (shape : List Nat) (strides : Option (List Int))
    (h : EntriesProper (items.items : List (PyStr × Json F))) :
    EntriesProper (ndarrayItems items shape strides : List (PyStr × Json F)) := by
  have hitems : (Json.dict items.items : Json F).Proper := ⟨h.keys, h.proper⟩
  have hshape := @jsonNats_proper F shape
  cases strides with
  | none =>
    refine ⟨?_, ⟨rfl, rfl, rfl, hitems, rfl, trivial, rfl, hshape, rfl, trivial, trivial⟩, ?_⟩
    · show [py "type", py "items", py "identical", py "shape", py "contiguous"].Nodup
      decide
    · show py "storage" ∉ [py "type", py "items", py "identical", py "shape", py "contiguous"]
      decide
  | some strides =>
    have hstrides : (Json.list (strides.map .int) : Json F).Proper := by
      show jsonsProper _
      rw [jsonsProper_iff]
      intro j hj
      obtain ⟨n, -, rfl⟩ := List.mem_map.mp hj
      trivial
    refine ⟨?_, ⟨rfl, rfl, rfl, hitems, rfl, trivial, rfl, hshape, rfl, trivial, rfl, hstrides,
      trivial⟩, ?_⟩
    · show [py "type", py "items", py "identical", py "shape", py "contiguous", py "strides"].Nodup
      decide
    · show py "storage" ∉
        [py "type", py "items", py "identical", py "shape", py "contiguous", py "strides"]
      decide

/-- The description of a list -/
theorem list_proper {items : Json F} (identical : Bool) (n : Nat) (h : items.Proper) :
    EntriesProper (listItems items identical n) := by
  refine ⟨?_, ⟨rfl, rfl, rfl, h, rfl, trivial, rfl, jsonNats_proper [n], trivial⟩, ?_⟩
  · show [py "type", py "items", py "identical", py "shape"].Nodup
    decide
  · show py "storage" ∉ [py "type", py "items", py "identical", py "shape"]
    decide

theorem jsonForms_proper {fs : List Form} (h : ∀ f ∈ fs, (f.json : Json F).Proper) :
    jsonsProper (jsonForms fs : List (Json F)) := by
  induction fs with
  | nil => trivial
  | cons f fs ih =>
    obtain ⟨hfirst, hrest⟩ := List.forall_mem_cons.mp h
    exact ⟨hfirst, ih hrest⟩

/-- The description of a dict; one without keys has no properties. -/
theorem object_proper {props : List (PyStr × Form)} (s : Option Storage)
    (hkeys : (Assoc.keys props).Nodup)
    (h : ∀ e ∈ props, Encodable e.1 ∧ (e.2.json : Json F).Proper) :
    ((Form.object props s).json : Json F).Proper := by
  have hall : ∀ l : List (PyStr × Form), (∀ e ∈ l, Encodable e.1 ∧ (e.2.json : Json F).Proper) →
      entriesProper (jsonProperties l : List (PyStr × Json F)) := by
    intro l
    induction l with
    | nil => exact fun _ => trivial
    | cons e l ih =>
      intro hl
      obtain ⟨⟨hkey, he⟩, hl⟩ := List.forall_mem_cons.mp hl
      exact ⟨hkey, he, ih hl⟩
  cases props with
  | nil =>
    have hentries : EntriesProper ([(py "type", .str (py "object"))] : List (PyStr × Json F)) :=
      ⟨List.nodup_singleton _, ⟨rfl, rfl, trivial⟩, by
        show py "storage" ∉ [py "type"]
        decide⟩
    exact hentries.storage s
  | cons p props =>
    have hprops : (Json.dict (jsonProperties (p :: props)) : Json F).Proper :=
      ⟨by rwa [keys_jsonProperties], hall _ h⟩
    have hentries : EntriesProper ([(py "type", .str (py "object")),
        (py "properties", .dict (jsonProperties (p :: props)))] : List (PyStr × Json F)) := by
      refine ⟨?_, ⟨rfl, rfl, rfl, hprops, trivial⟩, ?_⟩
      · show [py "type", py "properties"].Nodup
        decide
      · show py "storage" ∉ [py "type", py "properties"]
        decide
    exact hentries.storage s

/-- The description with a storage noted, or with none -/
def Form.noted (f : Form) : Option Storage → Form
  | none => f
  | some s => f.withStorage s

/-- The description of a JSON scalar is a name, unless a storage is noted. -/
theorem scalar_proper (type : ScalarType) (s : Option Storage) :
    (((Form.scalar type none).noted s).json : Json F).Proper := by
  have hname : Encodable type.name := by cases type <;> rfl
  cases s with
  | none => exact hname
  | some s =>
    have hentries : EntriesProper ([(py "type", .str type.name)] : List (PyStr × Json F)) :=
      ⟨List.nodup_singleton _, ⟨rfl, hname, trivial⟩, by
        show py "storage" ∉ [py "type"]
        decide⟩
    exact hentries.storage (some s)

/-! ## §5. The description of a value. -/

/-- A container is JSON only if all of its parts are. -/
theorem containerStorage_eq {ss : List Storage} (h : containerStorage ss = .purePlain) :
    ∀ s ∈ ss, s = .purePlain := by
  unfold containerStorage at h
  split at h
  next hall => exact fun s hs => of_decide_eq_true (List.all_eq_true.mp hall s hs)
  next => cases h

/-- A part that is JSON is described as it is. -/
theorem noteStorage_plain {form : Storage × Form} (h : form.1 = .purePlain) :
    noteStorage form = form.2 := by
  unfold noteStorage
  rw [if_pos h]

/-- A part notes its storage, or is described as it is. -/
theorem noteStorage_noted (form : Storage × Form) : ∃ s, noteStorage form = form.2.noted s := by
  unfold noteStorage
  split
  next => exact ⟨none, rfl⟩
  next => exact ⟨some form.1, rfl⟩

namespace Codecs

variable {L : Codecs}

/-- The items of a list are described one by one. -/
theorem getFormList_iff {items : List (Value L.Float)} {forms : List (Storage × Form)} :
    L.getFormList items = some forms ↔
      List.Forall₂ (fun v form => L.getForm v = some form) items forms := by
  induction items generalizing forms with
  | nil =>
    show some [] = some forms ↔ _
    rw [List.forall₂_nil_left_iff, Option.some.injEq, eq_comm]
  | cons v vs ih =>
    show ((L.getForm v).bind fun form => (L.getFormList vs).map fun forms => form :: forms) =
      some forms ↔ _
    rw [List.forall₂_cons_left_iff]
    simp only [Option.bind_eq_some_iff, Option.map_eq_some_iff, ih]
    constructor
    · intro h
      obtain ⟨form, hform, forms', hforms, heq⟩ := h
      exact ⟨form, forms', hform, hforms, heq.symm⟩
    · intro h
      obtain ⟨form, forms', hform, hforms, heq⟩ := h
      exact ⟨form, hform, forms', hforms, heq.symm⟩

/-- The values of a dict are described under their keys. -/
theorem getFormItems_iff {items : List (PyStr × Value L.Float)}
    {forms : List (PyStr × Storage × Form)} :
    L.getFormItems items = some forms ↔
      List.Forall₂ (fun e form => form.1 = e.1 ∧ L.getForm e.2 = some form.2) items forms := by
  induction items generalizing forms with
  | nil =>
    show some [] = some forms ↔ _
    rw [List.forall₂_nil_left_iff, Option.some.injEq, eq_comm]
  | cons e items ih =>
    show ((L.getForm e.2).bind fun form =>
      (L.getFormItems items).map fun forms => (e.1, form) :: forms) = some forms ↔ _
    rw [List.forall₂_cons_left_iff]
    simp only [Option.bind_eq_some_iff, Option.map_eq_some_iff, ih]
    constructor
    · intro h
      obtain ⟨form, hform, forms', hforms, heq⟩ := h
      exact ⟨(e.1, form), forms', ⟨rfl, hform⟩, hforms, heq.symm⟩
    · intro h
      obtain ⟨form, forms', ⟨hkey, hform⟩, hforms, heq⟩ := h
      refine ⟨form.2, hform, forms', hforms, ?_⟩
      rw [heq, ← hkey]

/-- The properties have the keys of the dict. -/
theorem keys_getFormItems {items : List (PyStr × Value L.Float)}
    {forms : List (PyStr × Storage × Form)} (h : L.getFormItems items = some forms) :
    Assoc.keys (forms.map fun e => (e.1, noteStorage e.2)) = Assoc.keys items := by
  have hforms := getFormItems_iff.mp h
  -- the induction is on the described items; `h` speaks of the whole list
  clear h
  induction hforms with
  | nil => rfl
  | cons hfirst _ ih =>
    obtain ⟨hkey, -⟩ := hfirst
    unfold Assoc.keys at ih ⊢
    rw [List.map_cons, List.map_cons, List.map_cons, ih, hkey]

/-- The description of an array -/
theorem arrayForm_eq {a : NdArray} {storage : Storage} {f : Form}
    (h : arrayForm a = some (storage, f)) :
    ∃ items, getTformNumpy a.dtype = some items ∧
      (Storage.pureBinary, Form.ndarray items a.shape a.strides none) = (storage, f) := by
  unfold arrayForm at h
  split at h
  next => exact Option.map_eq_some_iff.mp h
  next => cases h

/-- The description of a list, from those of its items -/
theorem listForm_plain {forms : List (Storage × Form)} {f : Form}
    (h : listForm forms = (.purePlain, f)) (ih : ∀ form ∈ forms, form.1 = .purePlain → form.2.Plain) :
    f.Plain := by
  obtain ⟨hstorage, rfl⟩ := Prod.mk.inj h
  have hplain : ∀ form ∈ forms, (noteStorage form).Plain := by
    intro form hform
    have hpure := containerStorage_eq hstorage _ (List.mem_map_of_mem hform)
    rw [noteStorage_plain hpure]
    exact ih form hform hpure
  split
  next =>
    refine ⟨rfl, (formsPlain_iff _).mpr fun g hg => ?_⟩
    obtain ⟨form, hform, rfl⟩ := List.mem_map.mp hg
    exact hplain form hform
  next =>
    cases forms with
    | nil => rfl
    | cons form forms => exact ⟨rfl, hplain form List.mem_cons_self⟩

/-- A value that is stored as JSON has no storage noted in its description. -/
theorem getForm_plain (v : Value L.Float) : ∀ f, L.getForm v = some (.purePlain, f) → f.Plain := by
  have hlist : ∀ items : List (Value L.Float),
      (∀ v ∈ items, ∀ f, L.getForm v = some (.purePlain, f) → f.Plain) →
      ∀ f, (L.getFormList items).map listForm = some (.purePlain, f) → f.Plain := by
    intro items ih f h
    obtain ⟨forms, hforms, hform⟩ := Option.map_eq_some_iff.mp h
    -- every described item comes from an item of the list
    refine listForm_plain hform fun form hmem hpure => ?_
    obtain ⟨v, hv, hget⟩ := forall₂_mem_right (getFormList_iff.mp hforms) hmem
    exact ih v hv form.2 (by rw [hget, ← hpure])
  induction v using Value.induction with
  | leaf v hleaf =>
    intro f h
    cases v with
    | list items => exact hleaf.elim
    | tuple items => exact hleaf.elim
    | dict items => exact hleaf.elim
    | array a =>
      obtain ⟨items, -, hform⟩ := arrayForm_eq h
      cases hform
    | bytes b =>
      obtain ⟨items, -, hform⟩ := arrayForm_eq h
      cases hform
    | complex re im =>
      obtain ⟨item, -, hform⟩ := Option.map_eq_some_iff.mp h
      cases hform
    | generic g =>
      obtain ⟨item, -, hform⟩ := Option.map_eq_some_iff.mp h
      cases hform
    | _ =>
      cases h
      all_goals rfl
  | list items ih => exact hlist items ih
  | tuple items ih => exact hlist items ih
  | dict items ih =>
    intro f h
    obtain ⟨forms, hforms, hform⟩ := Option.map_eq_some_iff.mp h
    obtain ⟨hstorage, rfl⟩ := Prod.mk.inj hform
    refine ⟨rfl, (propertiesPlain_iff _).mpr fun e he => ?_⟩
    obtain ⟨form, hmem, rfl⟩ := List.mem_map.mp he
    have hpure := containerStorage_eq hstorage _ (List.mem_map.mpr ⟨form, hmem, rfl⟩)
    show (noteStorage form.2).Plain
    rw [noteStorage_plain hpure]
    obtain ⟨d, hd, -, hget⟩ := forall₂_mem_right (getFormItems_iff.mp hforms) hmem
    exact ih d hd form.2.2 (by rw [hget, ← hpure])

/-- The JSON of the description of a value is proper. -/
theorem getForm_proper (v : Value L.Float) : ∀ storage f, L.Proper v →
    L.getForm v = some (storage, f) → ∀ s, ((f.noted s).json : Json L.Float).Proper := by
  have hlist : ∀ items : List (Value L.Float),
      (∀ v ∈ items, ∀ storage f, L.Proper v → L.getForm v = some (storage, f) →
        ∀ s, ((f.noted s).json : Json L.Float).Proper) → L.ProperList items →
      ∀ storage f, (L.getFormList items).map listForm = some (storage, f) →
        ∀ s, ((f.noted s).json : Json L.Float).Proper := by
    intro items ih hproper storage f h s
    obtain ⟨forms, hforms, hform⟩ := Option.map_eq_some_iff.mp h
    -- the forms of the items, with their storage noted
    have hnoted : ∀ form ∈ forms, ((noteStorage form).json : Json L.Float).Proper := by
      intro form hmem
      obtain ⟨v, hv, hget⟩ := forall₂_mem_right (getFormList_iff.mp hforms) hmem
      obtain ⟨t, ht⟩ := noteStorage_noted form
      rw [ht]
      exact ih v hv form.1 form.2 ((properList_iff items).mp hproper v hv) hget t
    obtain ⟨-, rfl⟩ := Prod.mk.inj hform
    split
    next =>
      have hforms' : (Json.list (jsonForms (forms.map noteStorage)) : Json L.Float).Proper := by
        show jsonsProper _
        exact jsonForms_proper fun g hg => by
          obtain ⟨form, hform, rfl⟩ := List.mem_map.mp hg
          exact hnoted form hform
      cases s <;> exact (list_proper false _ hforms').storage _
    next =>
      cases forms with
      | nil => cases s <;> exact (@list_proper L.Float .null true 0 trivial).storage _
      | cons form forms =>
        cases s <;> exact (list_proper true _ (hnoted form List.mem_cons_self)).storage _
  induction v using Value.induction with
  | leaf v hleaf =>
    intro storage f hproper h s
    -- an array is described by its shape, strides and element type
    have harray : ∀ a : NdArray, a.dtype.Known → arrayForm a = some (storage, f) →
        ((f.noted s).json : Json L.Float).Proper := by
      intro a ha h
      obtain ⟨items, hitems, hform⟩ := arrayForm_eq h
      obtain ⟨-, rfl⟩ := Prod.mk.inj hform
      have hentries := ndarray_proper a.shape a.strides
        (@items_tform_proper L.Float a.dtype items hitems ha)
      cases s <;> exact hentries.storage _
    have hgeneric : ∀ d : DType, d.Known →
        (getTformNumpy d).map (fun item => (Storage.pureBinary, Form.generic item none)) =
          some (storage, f) → ((f.noted s).json : Json L.Float).Proper := by
      intro d hd h
      obtain ⟨item, hitem, hform⟩ := Option.map_eq_some_iff.mp h
      obtain ⟨-, rfl⟩ := Prod.mk.inj hform
      have hentries := @items_tform_proper L.Float d item hitem hd
      cases s <;> exact hentries.storage _
    cases v with
    | list items => exact hleaf.elim
    | tuple items => exact hleaf.elim
    | dict items => exact hleaf.elim
    | array a => exact harray a hproper h
    | bytes b => exact harray (L.npBytes b) hproper h
    | complex re im => exact hgeneric (L.npComplex re im).dtype hproper h
    | generic g => exact hgeneric g.dtype hproper h
    | _ =>
      cases h
      all_goals exact scalar_proper _ s
  | list items ih => exact fun storage f hproper h => hlist items ih hproper storage f h
  | tuple items ih => exact fun storage f hproper h => hlist items ih hproper storage f h
  | dict items ih =>
    intro storage f hproper h s
    obtain ⟨forms, hforms, hform⟩ := Option.map_eq_some_iff.mp h
    obtain ⟨-, rfl⟩ := Prod.mk.inj hform
    -- the properties of the form are the keys of the dict
    have hkeys : Assoc.keys (forms.map fun e => (e.1, noteStorage e.2)) = Assoc.keys items :=
      keys_getFormItems hforms
    have hentries : ∀ e ∈ forms.map fun e => (e.1, noteStorage e.2),
        Encodable e.1 ∧ (e.2.json : Json L.Float).Proper := by
      intro e he
      obtain ⟨form, hmem, rfl⟩ := List.mem_map.mp he
      obtain ⟨d, hd, hkey, hget⟩ := forall₂_mem_right (getFormItems_iff.mp hforms) hmem
      obtain ⟨t, ht⟩ := noteStorage_noted form.2
      obtain ⟨hencodable, hvalue⟩ := (properItems_iff items).mp hproper.2 d hd
      dsimp only
      rw [ht, hkey]
      exact ⟨hencodable, ih d hd form.2.1 form.2.2 hvalue hget t⟩
    cases s <;> exact object_proper _ (hkeys ▸ hproper.1) hentries

end Codecs

end SeamlessCore.Mixed
