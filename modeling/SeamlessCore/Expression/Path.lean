/-
  SeamlessCore.Expression.Path — the path language of Expressions.

  A path is written by `append_item_path` and `append_slice_path` (one chunk
  per access step of a Cell or Expression handle), joined by Expression
  fusion, and read by `parse_path` with scanners of its own.

  Source: `seamless/expression_class.py` (the writers and the join) and
  `seamless/checksum/expression.py` (`parse_path`, `_find_closing_bracket`,
  `_parse_bracket_token`, `_parse_slice`).
-/
import SeamlessCore.Python.Literal

namespace SeamlessCore.Expression

open SeamlessCore.Python

/-! ## §1. Access steps and parsed steps. -/

/-- The key of an item step taken through a handle. -/
inductive AccessKey where
  | str (s : PyStr)
  | int (i : Int)
  | bool (b : Bool)
  | none
  deriving DecidableEq, Repr

/-- One access step of a handle: `handle[key]` or `handle[start:stop:step]`. -/
inductive AccessStep where
  | item (key : AccessKey)
  | slice (start stop step : Option Int)
  deriving DecidableEq, Repr

/-- A parsed step: `("item", key)` or `("slice", slice(start, stop, step))`. -/
inductive PathStep where
  | item (key : Literal)
  | slice (start stop step : Literal)
  deriving DecidableEq, Repr

/-- The key as a Python value. -/
def AccessKey.toLiteral : AccessKey → Literal
  | .str s => .str s
  | .int i => .int i
  | .bool b => .bool b
  | .none => .none

/-- A slice bound as a Python value. -/
def boundLiteral : Option Int → Literal
  | some i => .int i
  | .none => .none

/-- The step that `parse_path` is to give back. -/
def AccessStep.toPathStep : AccessStep → PathStep
  | .item key => .item key.toLiteral
  | .slice start stop step => .slice (boundLiteral start) (boundLiteral stop) (boundLiteral step)

/-! ## §2. Writing a path. -/

/-- `repr(key)`; `none` is the `ValueError` of an integer with too many digits. -/
def reprKey (I : Interpreter) : AccessKey → Option PyStr
  | .str s => some (strRepr I.toUnicodeTables s)
  | .int i => intRepr I.maxStrDigits i
  | .bool true => some (py "True")
  | .bool false => some (py "False")
  | .none => some (py "None")

/-- `path[key!r]`, the bracketed form. -/
def bracketed (token : PyStr) : PyStr := cp '[' :: (token ++ [cp ']'])

/-- `append_item_path(path, key)` -/
def appendItemPath (I : Interpreter) (path : PyStr) (key : AccessKey) : Option PyStr :=
  match key with
  | .str s =>
    if I.isIdentifier s then
      some (path ++ ((if path = [] then [] else [cp '.']) ++ s))
    else (reprKey I key).map fun token => path ++ bracketed token
  | key => (reprKey I key).map fun token => path ++ bracketed token

/-- `"" if bound is None else repr(bound)` -/
def reprBound (I : Interpreter) : Option Int → Option PyStr
  | some i => intRepr I.maxStrDigits i
  | .none => some []

/-- `":".join(parts)` -/
def joinColon (parts : List PyStr) : PyStr := [cp ':'].intercalate parts

/-- `append_slice_path(path, start, stop, step)` -/
def appendSlicePath (I : Interpreter) (path : PyStr) (start stop step : Option Int) :
    Option PyStr := do
  let a ← reprBound I start
  let b ← reprBound I stop
  match step with
  | .none => some (path ++ bracketed (joinColon [a, b]))
  | some i =>
    let c ← intRepr I.maxStrDigits i
    some (path ++ bracketed (joinColon [a, b, c]))

/-- The path of a handle after one more access step. -/
def appendStep (I : Interpreter) (path : PyStr) : AccessStep → Option PyStr
  | .item key => appendItemPath I path key
  | .slice start stop step => appendSlicePath I path start stop step

/-- The path of a handle reached from the root by `steps`. -/
def buildPath (I : Interpreter) (steps : List AccessStep) : Option PyStr :=
  steps.foldlM (appendStep I) []

/-- The path of two fused Expressions, the inner one's first
(`Expression.__post_init__`). -/
def fusePath (inner path : PyStr) : PyStr :=
  inner ++
    if inner ≠ [] ∧ path ≠ [] ∧ ¬ (path.head? = some (cp '.') ∨ path.head? = some (cp '['))
    then cp '.' :: path else path

/-! ## §3. Reading a path. -/

/-- The `ExpressionEvaluationError`s of `parse_path`. -/
inductive PathError where
  | invalidSegment (start : Nat)
  | unclosedBracket (start : Nat)
  | invalidItemToken (token : PyStr)
  | invalidSliceToken (token : PyStr)
  deriving DecidableEq, Repr

/-- The text of the error. -/
def PathError.message : PathError → PyStr
  | .invalidSegment start => py "Invalid path segment at " ++ decimal start
  | .unclosedBracket start => py "Unclosed path bracket at " ++ decimal start
  | .invalidItemToken token => py "Invalid item path token " ++ bracketed token
  | .invalidSliceToken token => py "Invalid slice path token " ++ bracketed token

/-- `path[index] == "_" or path[index].isalnum()` -/
def isNameChar (I : Interpreter) (c : CodePoint) : Bool := c == cp '_' || I.isAlnum c

/-- The loop of `_find_closing_bracket`, on the text after the opening bracket;
the result is the offset of the closing one. -/
def findClosingBracket : (quote : Option CodePoint) → (escape : Bool) → PyStr → Option Nat
  | _, _, [] => .none
  | some q, true, _ :: cs => (findClosingBracket (some q) false cs).map (· + 1)
  | some q, false, c :: cs =>
    if c = cp '\\' then (findClosingBracket (some q) true cs).map (· + 1)
    else if c = q then (findClosingBracket .none false cs).map (· + 1)
    else (findClosingBracket (some q) false cs).map (· + 1)
  | .none, escape, c :: cs =>
    if c = cp '\'' ∨ c = cp '"' then (findClosingBracket (some c) escape cs).map (· + 1)
    else if c = cp ']' then some 0
    else (findClosingBracket .none escape cs).map (· + 1)

/-- One part of a slice token: `None` if empty, else a literal. -/
def parseSlicePart (I : Interpreter) (part : PyStr) : Option Literal :=
  if part = [] then some .none else literalEval I part

/-- `_parse_slice(token)` -/
def parseSlice (I : Interpreter) (token : PyStr) : Except PathError PathStep :=
  let parts := token.splitOn (cp ':')
  if 3 < parts.length then .error (.invalidSliceToken token)
  else
    match parts.mapM (parseSlicePart I) with
    | .none => .error (.invalidSliceToken token)
    | some values =>
      .ok (.slice (values.getD 0 .none) (values.getD 1 .none) (values.getD 2 .none))

/-- `_parse_bracket_token(token)` -/
def parseBracketToken (I : Interpreter) (token : PyStr) : Except PathError PathStep :=
  if cp ':' ∈ token then parseSlice I token
  else
    match literalEval I token with
    | .none => .error (.invalidItemToken token)
    | some key => .ok (.item key)

/-- An identifier step read at `start` from `text`: the step, and what follows. -/
def parseName (I : Interpreter) (start : Nat) (text : PyStr) :
    Except PathError (PathStep × PyStr) :=
  let name := text.takeWhile (isNameChar I)
  if name = [] ∨ I.isIdentifier name = false then .error (.invalidSegment start)
  else .ok (.item (.str name), text.dropWhile (isNameChar I))

/-- One turn of the loop of `parse_path` at `index`, on the text `c :: cs` from
there on: the step, and what follows. -/
def parseStep (I : Interpreter) (index : Nat) (c : CodePoint) (cs : PyStr) :
    Except PathError (PathStep × PyStr) :=
  if c = cp '.' then parseName I (index + 1) cs
  else if c = cp '[' then
    match findClosingBracket .none false cs with
    | .none => .error (.unclosedBracket index)
    | some stop => (parseBracketToken I (cs.take stop)).map fun step => (step, cs.drop (stop + 1))
  else parseName I index (c :: cs)

/-- The loop of `parse_path`.  Every turn consumes a character, so `fuel` at
least the length of the text is never used up. -/
def parsePathLoop (I : Interpreter) (length : Nat) :
    (fuel : Nat) → PyStr → Except PathError (List PathStep)
  | _, [] => .ok []
  | 0, c :: cs => .error (.invalidSegment (length - (c :: cs).length))
  | fuel + 1, c :: cs => do
    let (step, rest) ← parseStep I (length - (c :: cs).length) c cs
    let steps ← parsePathLoop I length fuel rest
    .ok (step :: steps)

/-- `parse_path(path)` -/
def parsePath (I : Interpreter) (path : PyStr) : Except PathError (List PathStep) :=
  parsePathLoop I path.length path.length path

end SeamlessCore.Expression
