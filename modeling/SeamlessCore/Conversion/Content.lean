/-
  SeamlessCore.Conversion.Content — what a conversion does to content.

  The reference of the engine: a function of the source buffer alone, without
  stored words, callbacks or short cuts.  A buffer has a value as a celltype
  exactly when the parser reads it with nothing known of it, and a conversion
  either keeps the buffer or makes a new one from its value.

  Main definitions:
    * `contentValue` — the value of a buffer;
    * `convertContent` — the conversion of a buffer, `none` where it fails;
    * `Loose`, `Misled` — where a stored word leads the engine elsewhere.
-/
import SeamlessCore.Conversion.Engine

namespace SeamlessCore

open Python Lazy

namespace Libraries

variable (L : Libraries)

/-! ## §1. Values. -/

/-- The value of a buffer, with nothing known of its checksum. -/
def contentValue (b : Bytes) (t : Celltype) : Option L.Value :=
  L.parseBuffer none b (L.sha256 b) t

/-- Only its word keeps the parser from reading the buffer. -/
def Loose (b : Bytes) (t : Celltype) : Prop :=
  L.contentValue b t = none ∧ L.virtualValue (L.sha256 b) t = .notVirtual ∧
    (L.parseBody b t).isSome = true

/-! ## §2. Rules on content. -/

/-- The result that keeps the buffer -/
def kept (b : Bytes) : Converted := (L.sha256 b, none)

/-- The result that makes a new buffer of a value -/
def made (v : L.Value) (t : Celltype) : Option Converted :=
  (L.serialize v t).map fun b => (L.sha256 b, some b)

def reinterpretContent (b : Bytes) (t : Celltype) : Option Converted :=
  (L.contentValue b t).map fun _ => L.kept b

/-- Every bytes buffer is an array, if need be of its own bytes. -/
def bytesToBinaryContent (b : Bytes) : Option Converted :=
  if startsWith b magicNumpy ∧ L.Valid b .binary then some (L.kept b)
  else L.made (.array (L.npBytes b)) .binary

def bytesToMixedContent (b : Bytes) : Option Converted :=
  if L.Valid b .mixed then some (L.kept b)
  else
    match decodeUtf8 b with
    | some text => L.made (.str (rstripNewlines text)) .str
    | none => L.made (.array (L.npBytes b)) .binary

def binaryToBytesContent (b : Bytes) : Option Converted :=
  (L.contentValue b .binary).bind fun
    | .array a =>
      if L.dtypeKind a = cp 'S' then L.made (.bytes (L.toBytes a)) .bytes else some (L.kept b)
    | _ => some (L.kept b)

def mixedToBytesContent (b : Bytes) : Option Converted :=
  if startsWith b magicNumpy then L.binaryToBytesContent b
  else (L.contentValue b .mixed).map fun _ => L.kept b

def plainOfTextContent (b : Bytes) : Option L.Value :=
  match L.virtualValue (L.sha256 b) .plain with
  | .value v => some v
  | .invalid => none
  | .notVirtual => (L.contentValue b .text).map L.textValue

def textToPlainContent (b : Bytes) : Option Converted :=
  (L.plainOfTextContent b).bind fun value =>
    (L.made value .plain).map fun result =>
      if result.1 = L.sha256 b then L.kept b else result

def reformatContent (b : Bytes) : Celltype → Celltype → Option Converted
  | .bytes, .binary => L.bytesToBinaryContent b
  | .bytes, .mixed => L.bytesToMixedContent b
  | .binary, .bytes => L.binaryToBytesContent b
  | .mixed, .bytes => L.mixedToBytesContent b
  | .plain, .text =>
    (L.contentValue b .plain).bind fun
      | .str s => L.made (.str s) .text
      | _ => some (L.kept b)
  | .text, .plain => L.textToPlainContent b
  | .text, .str => (L.contentValue b .text).bind fun v => L.made v .str
  | .str, .text => (L.contentValue b .str).bind fun v => L.made v .text
  | .yaml, .plain =>
    (L.contentValue b .yaml).bind fun
      | .str text => (L.yamlSafeLoad text).bind fun v => L.made v .plain
      | _ => none
  | .ipython, .python =>
    (L.contentValue b .ipython).bind fun
      | .str text => (L.ipython2python text).bind fun code => L.made (.str code) .python
      | _ => none
  | _, _ => none

def possibleContent (b : Bytes) (s t : Celltype) : Option Converted :=
  (L.contentValue b s).bind fun v =>
    if L.isContainer v then none else (L.builtin true v t).bind fun v' => L.made v' t

def valuesContent (b : Bytes) (s t : Celltype) : Option Converted :=
  if t = .checksum then
    (encodeUtf8 (L.sha256 b).hex).map fun b' => (L.sha256 b', some b')
  else if s = .checksum then
    (L.contentValue b .checksum).bind fun
      | .checksum c => some (c, none)
      | _ => none
  else
    (L.contentValue b s).bind fun v => (L.valueRule s t v).bind fun v' => L.made v' t

/-! ## §3. Conversions. -/

/-- The result of a chain on content -/
def chainContent (b : Bytes) (first second : Converted) : Option Converted :=
  match second.2 with
  | some b' => some (second.1, some b')
  | none =>
    if second.1 = L.sha256 b then some (L.kept b)
    else if first.2 = none ∨ second.1 ≠ first.1 then none
    else some (second.1, first.2)

def convertContentStep (recur : Bytes → Celltype → Celltype → Option Converted) (b : Bytes)
    (s t : Celltype) : Option Converted :=
  match Conversion.rule s t with
  | .same => some (L.kept b)
  | .equivalent s' t' => recur b s' t'
  | .chain m =>
    (recur b s m).bind fun first =>
      (recur (first.2.getD b) m t).bind fun second => L.chainContent b first second
  | .forbidden => none
  | .retain => some (L.kept b)
  | .reinterpret => L.reinterpretContent b t
  | .reformat => L.reformatContent b s t
  | .possible => L.possibleContent b s t
  | .values => L.valuesContent b s t
  | .unclassified => none

def convertContentFuel : (fuel : Nat) → Bytes → Celltype → Celltype → Option Converted
  | 0, _, _, _ => none
  | fuel + 1, b, s, t => L.convertContentStep (convertContentFuel fuel) b s t

/-- The conversion of a buffer -/
def convertContent (b : Bytes) (s t : Celltype) : Option Converted :=
  if (s, t) ∈ Conversion.forbiddenPairs then none else L.convertContentFuel 4 b s t

/-! ## §4. Stored words. -/

/-- Every stored word is truthful for the buffers of its checksum. -/
def Good (known : Knowledge) : Prop :=
  ∀ b h, known (L.sha256 b) = some h → L.Truthful b h

/-- The stored word does not disprove a celltype that the buffer's own does, or it proves
one that the reader of arrays refuses. -/
def Misled (known : Knowledge) (b : Bytes) : Celltype → Celltype → Prop
  | .mixed, .binary => L.Loose b .binary ∧ ∃ h, known (L.sha256 b) = some h ∧
      L.deserializableAs h .binary (L.sha256 b) ≠ some false
  | .bytes, .binary => startsWith b magicNumpy = true ∧ L.Loose b .binary ∧
      ∃ h, known (L.sha256 b) = some h ∧
        L.deserializableAs h .binary (L.sha256 b) ≠ some false
  | .bytes, .mixed => L.Unreadable b ∧ ∃ h, known (L.sha256 b) = some h ∧
      L.deserializableAs h .mixed (L.sha256 b) = some true
  | _, _ => False

/-- The three conversions that a stored word misleads about -/
theorem misled_cases {known : Knowledge} {b : Bytes} {s t : Celltype}
    (h : L.Misled known b s t) :
    s = .mixed ∧ t = .binary ∧ L.Misled known b .mixed .binary ∨
      s = .bytes ∧ t = .binary ∧ L.Misled known b .bytes .binary ∨
      s = .bytes ∧ t = .mixed ∧ L.Misled known b .bytes .mixed := by
  cases s with
  | mixed =>
    cases t with
    | binary => exact .inl ⟨rfl, rfl, h⟩
    | _ => exact False.elim h
  | bytes =>
    cases t with
    | binary => exact .inr (.inl ⟨rfl, rfl, h⟩)
    | mixed => exact .inr (.inr ⟨rfl, rfl, h⟩)
    | _ => exact False.elim h
  | _ => exact False.elim h

end Libraries

end SeamlessCore
