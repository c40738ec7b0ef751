/-
  SeamlessCore.Errors.Envelope — the wire codec of execution errors.

  An exception is sent as an envelope: its kind, a message, and where its
  first argument is a checksum that one too; a cache miss may carry a
  fingertip category.  The decoder builds an exception of the class of the
  kind from the checksum alone if there is one, and else from the message.

  What the exception says of itself by the methods of its class (`str`, its
  attributes) is data of the exception; the formatted traceback, and the
  digest of null, are parameters.

  Main results:
    * `decodeError_entries` — what decoding makes of an encoded error;
    * `errorEnvelope_iff` — exactly which errors survive the codec.

  Source: `seamless/error_envelope.py`, `seamless/__init__.py`,
  `seamless/checksum_class.py`.
-/
import SeamlessCore.Checksum.Libraries

namespace SeamlessCore.ErrorEnvelope

open Python

/-! ## §1. Kinds and categories. -/

/-- `FingertipCategory` -/
inductive FingertipCategory where
  | materialization
  | failedTransformation
  | irreproducibleTransformation
  | irreproducibleExpression
  deriving DecidableEq

namespace FingertipCategory

/-- `category.wire_name` -/
def wireName : FingertipCategory → PyStr
  | materialization => py "materialization"
  | failedTransformation => py "failed_transformation"
  | irreproducibleTransformation => py "irreproducible_transformation"
  | irreproducibleExpression => py "irreproducible_expression"

/-- The members in their order -/
def members : List FingertipCategory :=
  [materialization, failedTransformation, irreproducibleTransformation, irreproducibleExpression]

end FingertipCategory

/-- The classes of `_kinds()` -/
inductive Kind where
  | cacheMiss
  | hashTypeValidation
  | expressionEvaluation
  | conversion
  | canceled
  deriving DecidableEq

namespace Kind

/-- The keys of `_kinds()` -/
def name : Kind → PyStr
  | cacheMiss => py "cache_miss"
  | hashTypeValidation => py "hash_type_validation"
  | expressionEvaluation => py "expression_evaluation"
  | conversion => py "conversion"
  | canceled => py "canceled"

/-- `_kinds()`, in its order -/
def kinds : List Kind := [cacheMiss, hashTypeValidation, expressionEvaluation, conversion, canceled]

/-- `_kinds().get(name)` -/
def ofName (name : PyStr) : Option Kind := kinds.find? fun k => k.name = name

theorem name_of_ofName {n : PyStr} {k : Kind} (h : ofName n = some k) : k.name = n := by
  have hfound := List.find?_some h
  simpa using hfound

end Kind

/-! ## §2. Exceptions. -/

/-- An argument of an exception -/
inductive Arg where
  | checksum (c : Checksum)
  | str (s : PyStr)
  | bytes (b : Bytes)
  | other

/-- `Checksum(arg)`; `none` is a `TypeError` or a `ValueError`. -/
def Arg.toChecksum : Arg → Option Checksum
  | .checksum c => some c
  | .str s => Checksum.ofStr s
  | .bytes b => if h : b.length = 32 then some ⟨b, h⟩ else none
  | .other => none

/-- The value of an attribute `kind` -/
inductive KindValue where
  | str (s : PyStr)
  | other (hashable : Bool)
  deriving DecidableEq

/-- An exception.  `text` is what `str(exc)` gives; `none` there is an
exception of its own. -/
structure PyException where
  /-- an `asyncio.CancelledError` -/
  isCancelled : Bool
  /-- `isinstance(exc, cls)` for the classes of `_kinds()` -/
  isinstance : Kind → Bool
  /-- a `WorkflowExecutionError` -/
  isWorkflow : Bool
  /-- the attribute `kind`, if there is one -/
  kind : Option KindValue
  /-- the attribute `fingertip_category` -/
  fingertipCategory : Option FingertipCategory
  args : List Arg
  text : Option PyStr

/-- `WorkflowExecutionError(message, kind=kind)` -/
def workflowExecutionError (message kind : PyStr) : PyException where
  isCancelled := false
  isinstance := fun _ => false
  isWorkflow := true
  kind := some (.str kind)
  fingertipCategory := none
  args := [.str message]
  text := some message

/-- `cls(*args)` for a class of `_kinds()` and at most one argument, whose
text is the text of the exception -/
def newError (k : Kind) (args : List Arg) (text : PyStr)
    (category : Option FingertipCategory) : PyException where
  isCancelled := false
  isinstance := fun k' => k' = k
  isWorkflow := false
  kind := none
  fingertipCategory := category
  args := args
  text := some text

/-! ## §3. The codec. -/

/-- The parts of a payload that the codec tells apart -/
inductive Wire where
  | str (s : PyStr)
  | dict (items : List (PyStr × Wire))
  | other

/-- `items.get(key)` -/
def get (items : List (PyStr × Wire)) (key : String) : Option Wire :=
  (items.find? fun item => item.1 = py key).map Prod.snd

/-- `KindValue` as it goes into an envelope -/
def KindValue.wire : KindValue → Wire
  | .str s => .str s
  | .other _ => .other

/-- `error_kind(exc)` -/
def errorKind (exc : PyException) : KindValue :=
  if exc.isCancelled then .str (py "canceled")
  else
    match Kind.kinds.find? exc.isinstance with
    | some k => .str k.name
    | none => exc.kind.getD (.str (py "execution"))

/-- `kind in _kinds()`; `none` is the `TypeError` of a value without a hash. -/
def KindValue.isKnown : KindValue → Option Bool
  | .str s => some (Kind.ofName s).isSome
  | .other hashable => if hashable then some false else none

section Codec

variable (formatException : PyException → Option PyStr) (nullChecksum : Checksum)

/-- The message of an encoded error -/
def errorMessage (exc : PyException) : Option PyStr :=
  (errorKind exc).isKnown.bind fun known =>
    if known || exc.isWorkflow then exc.text else formatException exc

/-- The checksum of an encoded error -/
def errorChecksum (exc : PyException) : Option Checksum := exc.args.head?.bind Arg.toChecksum

/-- The category of an encoded error -/
def errorCategory (exc : PyException) : Option FingertipCategory :=
  if errorKind exc = .str (py "cache_miss") then exc.fingertipCategory else none

/-- `encode_error(exc)`; `none` if it raises. -/
def encodeError (exc : PyException) : Option Wire :=
  (errorMessage formatException exc).map fun message =>
    let error :=
      [(py "kind", (errorKind exc).wire), (py "message", .str message)] ++
      (match errorChecksum exc with
        | some checksum => [(py "checksum", .str checksum.hex)]
        | none => []) ++
      (match errorCategory exc with
        | some category => [(py "fingertip_category", .str category.wireName)]
        | none => [])
    .dict [(py "error", .dict error)]

/-- `str(checksum)` -/
def display (c : Checksum) : PyStr := if c = nullChecksum then py "NULL" else c.hex

/-- `re.fullmatch(r"[0-9a-fA-F]{64}", s)` -/
def isDigest (s : PyStr) : Bool :=
  s.length = 64 && s.all fun x =>
    (48 ≤ x.val && x.val ≤ 57) || (97 ≤ x.val && x.val ≤ 102) || (65 ≤ x.val && x.val ≤ 70)

/-- The check of the entry `checksum` -/
def readChecksum (error : List (PyStr × Wire)) : Except PyStr (Option PyStr) :=
  match get error "checksum" with
  | none => .ok none
  | some (.str s) =>
    if isDigest s then .ok (some s) else .error (py "Malformed execution error checksum")
  | some _ => .error (py "Malformed execution error checksum")

/-- `FingertipCategory.from_wire_name(value)` -/
def fromWireName : Wire → Except PyStr FingertipCategory
  | .str s =>
    match FingertipCategory.members.find? fun category => category.wireName = s with
    | some category => .ok category
    | none => .error (py "Invalid fingertip category")
  | _ => .error (py "Invalid fingertip category")

/-- The check of the entry `fingertip_category` -/
def readCategory (kind : PyStr) (error : List (PyStr × Wire)) :
    Except PyStr (Option FingertipCategory) :=
  match get error "fingertip_category" with
  | none => .ok none
  | some value =>
    if kind ≠ py "cache_miss" then .error (py "Malformed execution error category")
    else (fromWireName value).map some

/-- `Checksum(s)`, with the `ValueError` that it may raise -/
def toChecksum (s : PyStr) : Except PyStr Checksum :=
  match Checksum.ofStr s with
  | some c => .ok c
  | none => .error (py "Incorrect length")

/-- The exception that is built at the end of `decode_error` -/
def buildError (kind message : PyStr) (checksum : Option PyStr)
    (category : Option FingertipCategory) : Except PyStr PyException :=
  match Kind.ofName kind with
  | none => .ok (workflowExecutionError message kind)
  | some k =>
    if kind = py "cache_miss" then
      match checksum with
      | some s => do
        let c ← toChecksum s
        .ok (newError k [.checksum c] (display nullChecksum c) category)
      | none =>
        if message = [] then .ok (newError k [] [] category)
        else .ok (newError k [.str message] message category)
    else
      match checksum with
      | some s => do
        let c ← toChecksum s
        .ok (newError k [.checksum c] (display nullChecksum c) none)
      | none => .ok (newError k [.str message] message none)

/-- The entry `error` of a payload; a payload that has a kind is the entry
itself. -/
def envelopeError : Wire → Option (List (PyStr × Wire))
  | .dict items =>
    if (get items "kind").isSome then some items
    else
      match get items "error" with
      | some (.dict error) => some error
      | _ => none
  | _ => none

/-- `decode_error(payload)`, with the message of its `ValueError` -/
def decodeError (payload : Wire) : Except PyStr PyException :=
  match envelopeError payload with
  | none => .error (py "Malformed execution error envelope")
  | some error =>
    match get error "kind", get error "message" with
    | some (.str kind), some (.str message) =>
      if kind = [] then .error (py "Malformed execution error envelope")
      else do
        let checksum ← readChecksum error
        let category ← readCategory kind error
        buildError nullChecksum kind message checksum category
    | _, _ => .error (py "Malformed execution error envelope")

end Codec

/-! ## §4. Reading the entries of an envelope. -/

/-- The entries that `encode_error` makes -/
def entries (kind message : PyStr) (checksum : Option Checksum)
    (category : Option FingertipCategory) : List (PyStr × Wire) :=
  [(py "kind", .str kind), (py "message", .str message)] ++
  (match checksum with
    | some checksum => [(py "checksum", .str checksum.hex)]
    | none => []) ++
  (match category with
    | some category => [(py "fingertip_category", .str category.wireName)]
    | none => [])

section Entries

variable (kind message : PyStr) (checksum : Option Checksum) (category : Option FingertipCategory)

theorem get_kind : get (entries kind message checksum category) "kind" = some (.str kind) := by
  cases checksum <;> cases category <;> rfl

theorem get_message :
    get (entries kind message checksum category) "message" = some (.str message) := by
  cases checksum <;> cases category <;> rfl

theorem get_checksum : get (entries kind message checksum category) "checksum" =
    checksum.map fun c => .str c.hex := by
  cases checksum <;> cases category <;> rfl

theorem get_category : get (entries kind message checksum category) "fingertip_category" =
    category.map fun category => .str category.wireName := by
  cases checksum <;> cases category <;> rfl

end Entries

theorem fromWireName_wireName (category : FingertipCategory) :
    fromWireName (.str category.wireName) = .ok category := by
  cases category <;> rfl

theorem isDigest_hex (c : Checksum) : isDigest c.hex = true := by
  unfold isDigest
  have hlength : c.hex.length = 64 := by
    show (hex c.digest).length = 64
    rw [length_hex, c.length_eq]
  rw [hlength, Bool.and_eq_true, List.all_eq_true]
  refine ⟨rfl, ?_⟩
  intro x hx
  obtain ⟨y, -, hx⟩ := List.mem_flatMap.mp hx
  obtain ⟨n, rfl⟩ := mem_hexDigits hx
  have hval := hexDigit_val n
  simp only [Bool.or_eq_true, Bool.and_eq_true, decide_eq_true_eq]
  omega

theorem readChecksum_entries (kind message : PyStr) (checksum : Option Checksum)
    (category : Option FingertipCategory) :
    readChecksum (entries kind message checksum category) = .ok (checksum.map Checksum.hex) := by
  unfold readChecksum
  rw [get_checksum]
  cases checksum with
  | none => rfl
  | some c =>
    simp only [Option.map_some]
    rw [if_pos (isDigest_hex c)]

theorem readCategory_entries {kind : PyStr} (message : PyStr) (checksum : Option Checksum)
    {category : Option FingertipCategory} (h : category ≠ none → kind = py "cache_miss") :
    readCategory kind (entries kind message checksum category) = .ok category := by
  unfold readCategory
  rw [get_category]
  cases category with
  | none => rfl
  | some category =>
    simp only [Option.map_some]
    rw [if_neg (not_not_intro (h nofun)), fromWireName_wireName]
    rfl

theorem toChecksum_hex (c : Checksum) : toChecksum c.hex = .ok c := by
  unfold toChecksum
  rw [Checksum.ofStr_hex]

/-! ## §5. What passes the check of a checksum is one. -/

/-- What the regular expression of a digest accepts -/
def IsHexDigit (x : CodePoint) : Prop :=
  48 ≤ x.val ∧ x.val ≤ 57 ∨ 97 ≤ x.val ∧ x.val ≤ 102 ∨ 65 ≤ x.val ∧ x.val ≤ 70

theorem IsHexDigit.hexVal {x : CodePoint} (h : IsHexDigit x) :
    isHexSpace x = false ∧ ∃ v, Python.hexVal x = some v := by
  unfold IsHexDigit at h
  refine ⟨?_, ?_⟩
  · unfold isHexSpace
    simp only [Bool.or_eq_false_iff, Bool.and_eq_false_iff, beq_eq_false_iff_ne,
      decide_eq_false_iff_not]
    omega
  · unfold Python.hexVal
    by_cases hdigit : 48 ≤ x.val ∧ x.val ≤ 57
    · exact ⟨_, if_pos hdigit⟩
    · by_cases hlower : 97 ≤ x.val ∧ x.val ≤ 102
      · exact ⟨_, by rw [if_neg hdigit, if_pos hlower]⟩
      · exact ⟨_, by rw [if_neg hdigit, if_neg hlower, if_pos (by omega)]⟩

/-! ## §6. Decoding what was encoded. -/

section RoundTrip

variable {formatException : PyException → Option PyStr} {nullChecksum : Checksum}

/-- The exception that an envelope stands for -/
def decoded (nullChecksum : Checksum) (kind message : PyStr) (checksum : Option Checksum)
    (category : Option FingertipCategory) : PyException :=
  match Kind.ofName kind with
  | none => workflowExecutionError message kind
  | some k =>
    match checksum with
    | some c => newError k [.checksum c] (display nullChecksum c) category
    | none =>
      if k = .cacheMiss ∧ message = [] then newError k [] [] category
      else newError k [.str message] message category

theorem errorCategory_kind {exc : PyException} {kind : PyStr} (hkind : errorKind exc = .str kind)
    (h : errorCategory exc ≠ none) : kind = py "cache_miss" := by
  unfold errorCategory at h
  rw [hkind] at h
  by_contra hne
  rw [if_neg] at h
  · exact h rfl
  · intro heq
    exact hne (KindValue.str.inj heq)

theorem buildError_hex {kind : PyStr} (message : PyStr) (checksum : Option Checksum)
    {category : Option FingertipCategory} (h : category ≠ none → kind = py "cache_miss") :
    buildError nullChecksum kind message (checksum.map Checksum.hex) category =
      .ok (decoded nullChecksum kind message checksum category) := by
  unfold buildError decoded
  cases hk : Kind.ofName kind with
  | none => rfl
  | some k =>
    have hname := Kind.name_of_ofName hk
    simp only
    by_cases hmiss : kind = py "cache_miss"
    · -- a cache miss keeps its category, and its message may be empty
      have hcacheMiss : k = .cacheMiss := by
        rw [hmiss] at hk
        exact (Option.some.inj hk).symm
      rw [if_pos hmiss]
      cases checksum with
      | some c =>
        simp only [Option.map_some]
        rw [toChecksum_hex]
        rfl
      | none =>
        simp only [Option.map_none, hcacheMiss, true_and]
        split <;> rfl
    · have hcategory : category = none := by
        by_contra hne
        exact hmiss (h hne)
      have hother : k ≠ .cacheMiss := by
        intro heq
        rw [heq] at hname
        exact hmiss hname.symm
      rw [if_neg hmiss, hcategory]
      cases checksum with
      | some c =>
        simp only [Option.map_some]
        rw [toChecksum_hex]
        rfl
      | none => simp only [Option.map_none, hother, false_and, if_false]

theorem encodeError_eq {exc : PyException} {kind message : PyStr}
    (hkind : errorKind exc = .str kind) (hmessage : errorMessage formatException exc = some message) :
    encodeError formatException exc =
      some (.dict [(py "error",
        .dict (entries kind message (errorChecksum exc) (errorCategory exc)))]) := by
  unfold encodeError
  rw [hmessage, hkind]
  rfl

/-- What decoding makes of an encoded error whose kind is a text -/
theorem decodeError_entries {kind : PyStr} (message : PyStr) (checksum : Option Checksum)
    {category : Option FingertipCategory} (hkind : kind ≠ [])
    (hcategory : category ≠ none → kind = py "cache_miss") :
    decodeError nullChecksum
      (.dict [(py "error", .dict (entries kind message checksum category))]) =
      .ok (decoded nullChecksum kind message checksum category) := by
  have henvelope : envelopeError
      (.dict [(py "error", .dict (entries kind message checksum category))]) =
      some (entries kind message checksum category) := rfl
  unfold decodeError
  rw [henvelope]
  simp only
  rw [get_kind, get_message]
  simp only
  rw [if_neg hkind, readChecksum_entries, readCategory_entries message checksum hcategory]
  exact buildError_hex message checksum hcategory

/-- An error whose kind is no text cannot be decoded. -/
theorem decodeError_other {exc : PyException} {payload : Wire}
    (hencode : encodeError formatException exc = some payload)
    {d : PyException} (hdecode : decodeError nullChecksum payload = .ok d) :
    ∃ kind, errorKind exc = .str kind ∧ kind ≠ [] := by
  unfold encodeError at hencode
  obtain ⟨message, -, rfl⟩ := Option.map_eq_some_iff.mp hencode
  cases hkind : errorKind exc with
  | str kind =>
    refine ⟨kind, rfl, ?_⟩
    rintro rfl
    rw [hkind] at hdecode
    cases hdecode
  | other hashable =>
    rw [hkind] at hdecode
    cases hdecode

/-! ## §7. The decoded exception. -/

theorem errorKind_newError (k : Kind) (args : List Arg) (text : PyStr)
    (category : Option FingertipCategory) :
    errorKind (newError k args text category) = .str k.name := by
  cases k <;> rfl

theorem errorKind_decoded (kind message : PyStr) (checksum : Option Checksum)
    (category : Option FingertipCategory) :
    errorKind (decoded nullChecksum kind message checksum category) = .str kind := by
  unfold decoded
  cases hk : Kind.ofName kind with
  | none => rfl
  | some k =>
    simp only
    rw [← Kind.name_of_ofName hk]
    cases checksum with
    | some c => exact errorKind_newError _ _ _ _
    | none =>
      simp only
      split <;> exact errorKind_newError _ _ _ _

/-- A category survives: it comes with the kind of a cache miss. -/
theorem errorCategory_decoded {kind : PyStr} (message : PyStr) (checksum : Option Checksum)
    {category : Option FingertipCategory} (h : category ≠ none → kind = py "cache_miss") :
    errorCategory (decoded nullChecksum kind message checksum category) = category := by
  unfold errorCategory
  rw [errorKind_decoded]
  -- only the kind of a cache miss carries a category
  by_cases hmiss : kind = py "cache_miss"
  · rw [if_pos (by rw [hmiss]), hmiss]
    unfold decoded
    rw [show Kind.ofName (py "cache_miss") = some .cacheMiss from rfl]
    cases checksum with
    | some c => rfl
    | none =>
      simp only
      split <;> rfl
  · rw [if_neg fun heq => hmiss (KindValue.str.inj heq)]
    by_contra hne
    exact hmiss (h (Ne.symm hne))

/-- The text of a decoded error is its message. -/
theorem errorMessage_decoded (kind message : PyStr) (checksum : Option Checksum)
    (category : Option FingertipCategory) :
    errorMessage formatException (decoded nullChecksum kind message checksum category) =
      (decoded nullChecksum kind message checksum category).text := by
  unfold errorMessage
  rw [errorKind_decoded]
  show (if (Kind.ofName kind).isSome || _ then _ else _) = _
  rw [if_pos]
  unfold decoded
  cases hk : Kind.ofName kind with
  | none => rfl
  | some k => rfl

/-! ## §8. What survives. -/

/-- The message stands for the checksum of the error: an error of a known kind
says its checksum, or says nothing that reads as one; what another error says
reads as its checksum, or as none. -/
def Fits (nullChecksum : Checksum) (kind message : PyStr) (checksum : Option Checksum) : Prop :=
  match Kind.ofName kind, checksum with
  | some _, some c => message = display nullChecksum c
  | some _, none => Checksum.ofStr message = none
  | none, _ => Checksum.ofStr message = checksum

/-- The decoded error is like the first one, and its envelope the same. -/
def RoundTrips (formatException : PyException → Option PyStr) (nullChecksum : Checksum)
    (exc : PyException) : Prop :=
  ∃ payload d, encodeError formatException exc = some payload ∧
    decodeError nullChecksum payload = .ok d ∧
    errorKind d = errorKind exc ∧ errorChecksum d = errorChecksum exc ∧
    errorCategory d = errorCategory exc ∧
    errorMessage formatException d = errorMessage formatException exc ∧
    encodeError formatException d = some payload

/-- The kind of the error is a text that is not empty, its text can be made, and
the message fits the first argument. -/
def Faithful (formatException : PyException → Option PyStr) (nullChecksum : Checksum)
    (exc : PyException) : Prop :=
  ∃ kind message, errorKind exc = .str kind ∧ kind ≠ [] ∧
    errorMessage formatException exc = some message ∧
    Fits nullChecksum kind message (errorChecksum exc)

theorem fits_iff_decoded (kind message : PyStr) (checksum : Option Checksum)
    (category : Option FingertipCategory) :
    Fits nullChecksum kind message checksum ↔
      (decoded nullChecksum kind message checksum category).text = some message ∧
      errorChecksum (decoded nullChecksum kind message checksum category) = checksum := by
  unfold Fits decoded
  cases hk : Kind.ofName kind with
  | none =>
    constructor
    · exact fun h => ⟨rfl, h⟩
    · exact fun h => h.2
  | some k =>
    cases checksum with
    | some c =>
      constructor
      · exact fun h => ⟨congrArg some h.symm, rfl⟩
      · exact fun h => (Option.some.inj h.1).symm
    | none =>
      simp only
      by_cases hempty : k = .cacheMiss ∧ message = []
      · rw [if_pos hempty, hempty.2]
        exact iff_of_true rfl ⟨rfl, rfl⟩
      · rw [if_neg hempty]
        constructor
        · exact fun h => ⟨rfl, h⟩
        · exact fun h => h.2

theorem Faithful.of_roundTrips {exc : PyException}
    (h : RoundTrips formatException nullChecksum exc) :
    Faithful formatException nullChecksum exc := by
  obtain ⟨payload, d, hencode, hdecode, -, hchecksum, -, hmessage, -⟩ := h
  obtain ⟨kind, hkind, hne⟩ := decodeError_other hencode hdecode
  obtain ⟨message, hm, -⟩ := Option.map_eq_some_iff.mp hencode
  refine ⟨kind, message, hkind, hne, hm, ?_⟩
  have hcategory := fun h => errorCategory_kind hkind h
  rw [encodeError_eq hkind hm, Option.some.injEq] at hencode
  rw [← hencode, decodeError_entries message _ hne hcategory] at hdecode
  rw [← Except.ok.inj hdecode] at hchecksum hmessage
  -- the message of the decoded error is its text
  rw [errorMessage_decoded, hm] at hmessage
  exact (fits_iff_decoded kind message _ (errorCategory exc)).mpr ⟨hmessage, hchecksum⟩

theorem Faithful.roundTrips {exc : PyException} (h : Faithful formatException nullChecksum exc) :
    RoundTrips formatException nullChecksum exc := by
  obtain ⟨kind, message, hkind, hne, hm, hfits⟩ := h
  have hcategory := fun h => errorCategory_kind hkind h
  obtain ⟨htext, hchecksum⟩ :=
    (fits_iff_decoded kind message _ (errorCategory exc)).mp hfits
  have hkind' := @errorKind_decoded nullChecksum kind message (errorChecksum exc)
    (errorCategory exc)
  have hm' : errorMessage formatException (decoded nullChecksum kind message
      (errorChecksum exc) (errorCategory exc)) = some message := by
    rw [errorMessage_decoded, htext]
  have hcategory' := @errorCategory_decoded nullChecksum kind message (errorChecksum exc)
    (errorCategory exc) hcategory
  refine ⟨_, _, encodeError_eq hkind hm, decodeError_entries message _ hne hcategory, ?_⟩
  refine ⟨by rw [hkind', hkind], hchecksum, hcategory', by rw [hm', hm], ?_⟩
  rw [encodeError_eq hkind' hm', hchecksum, hcategory']

end RoundTrip

/-- An error survives the codec with its kind, checksum, category and message,
and with the same envelope when it is encoded again, if and only if its kind is
a text, its own text can be made, and the message fits the checksum. -/
theorem errorEnvelope_iff (formatException : PyException → Option PyStr) (nullChecksum : Checksum)
    (exc : PyException) :
    RoundTrips formatException nullChecksum exc ↔ Faithful formatException nullChecksum exc :=
  ⟨Faithful.of_roundTrips, Faithful.roundTrips⟩

/-- A cache miss of a checksum object, and an error with a plain message -/
example : RoundTrips (fun _ => none) ⟨List.replicate 32 0, rfl⟩
    (newError .cacheMiss [.checksum ⟨List.replicate 32 1, rfl⟩]
      (hex (List.replicate 32 1)) (some .materialization)) :=
  Faithful.roundTrips ⟨py "cache_miss", _, rfl, by decide, rfl, (if_neg (by decide)).symm⟩

/-- The digest of one repeated digit, in capitals -/
def capitalDigest : PyStr := List.replicate 64 (cp 'A')

/-- `CacheMissError("A" * 64)` -/
def capitalMiss : PyException := newError .cacheMiss [.str capitalDigest] capitalDigest none

/-- `KeyError("A" * 64)` -/
def keyError : PyException where
  isCancelled := false
  isinstance := fun _ => false
  isWorkflow := false
  kind := none
  fingertipCategory := none
  args := [.str capitalDigest]
  text := some (cp '\'' :: capitalDigest ++ [cp '\''])

/-- `WorkflowExecutionError("failed", kind="")` -/
def namelessError : PyException := workflowExecutionError (py "failed") []

/-- The message of a cache miss, the checksum of another error, and an error of
an empty kind do not survive. -/
theorem error_not_kept :
    ¬ RoundTrips (fun _ => some (py "Traceback")) ⟨List.replicate 32 0, rfl⟩ capitalMiss ∧
    ¬ RoundTrips (fun _ => some (py "Traceback")) ⟨List.replicate 32 0, rfl⟩ keyError ∧
    ¬ RoundTrips (fun _ => some (py "Traceback")) ⟨List.replicate 32 0, rfl⟩ namelessError := by
  refine ⟨?_, ?_, ?_⟩ <;> intro h <;>
    obtain ⟨kind, message, hkind, hne, hm, hfits⟩ := Faithful.of_roundTrips h
  · cases hkind
    cases hm
    -- the message of the decoded error is in small letters
    exact absurd (show capitalDigest = display _ ⟨List.replicate 32 170, rfl⟩ from hfits)
      (by decide)
  · cases hkind
    cases hm
    exact absurd (show Checksum.ofStr (py "Traceback") = some ⟨List.replicate 32 170, rfl⟩ from hfits)
      (by decide)
  · cases hkind
    exact hne rfl

end SeamlessCore.ErrorEnvelope
