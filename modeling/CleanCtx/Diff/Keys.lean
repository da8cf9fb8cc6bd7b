import Std.Data.TreeMap.Lemmas
import CleanCtx.Library.Text

/-!
Keys of the diff comparator (`diff/keys.rs`), with the declaration-head reader
they rest on (`compaction/signature.rs`, `find_method_params` of
`compaction/method.rs`). A signature is its list of characters: every character
the scans test for is ASCII, so byte and character positions select the same
slices.
-/
namespace CleanCtx
namespace Diff

def isAsciiWhitespace (c : Char) : Bool :=
  [' ', '\t', '\n', '\x0C', '\r'].contains c

def isIdentByte (c : Char) : Bool := c.isAlphanum || c = '_' || c = '@'

/-- The length of the dotted identifier chain at the front of a reversed head. -/
def chainLength : List Char → Nat
  | [] => 0
  | c :: rest =>
      if isIdentByte c then chainLength rest + 1
      else
        match c, rest with
        | '.', d :: _ => if isIdentByte d then chainLength rest + 1 else 0
        | _, _ => 0

def identStart (sig : List Char) (stop : Nat) : Option Nat :=
  match (sig.take stop).reverse with
  | [] => none
  | c :: rest => if isIdentByte c then some (stop - chainLength (c :: rest)) else none

/-- The position of the `<` that closes the depth to zero, scanning a reversed head backwards. -/
def openingAngle : List Char → Int → Option Nat
  | [], _ => none
  | '>' :: rest, depth => openingAngle rest (depth + 1)
  | '<' :: rest, depth => if depth = 1 then some rest.length else openingAngle rest (depth - 1)
  | _ :: rest, depth => openingAngle rest depth

def angleOpen (sig : List Char) (stop : Nat) : Option Nat :=
  match (sig.take stop).reverse with
  | '>' :: rest => openingAngle ('>' :: rest) 0
  | _ => none

structure HeadParts where
  name : List Char
  bareName : List Char
  pre : List Char
  deriving DecidableEq, Repr

def splitHeadParts (sig : List Char) (paramsOpen : Nat) : Option HeadParts := do
  guard (paramsOpen ≤ sig.length)
  let head := (sig.take paramsOpen).reverse.dropWhile isAsciiWhitespace |>.reverse
  let stop := head.length
  let (nameStart, bareStop) ←
    if head.getLast? = some '>' then do
      let angle ← angleOpen head stop
      pure (← identStart head angle, angle)
    else pure (← identStart head stop, stop)
  pure
    { name := (head.take stop).drop nameStart
      bareName := (head.take bareStop).drop nameStart
      pre := head.take nameStart }

/-- What follows the type-parameter list at the front of the text, when it closes. -/
def afterAngles : List Char → Int → Option (List Char)
  | [], _ => none
  | '<' :: rest, depth => afterAngles rest (depth + 1)
  | '>' :: rest, depth => if depth = 1 then some rest else afterAngles rest (depth - 1)
  | _ :: rest, depth => afterAngles rest depth

def isReturnTypeGroup (sig : List Char) (close : Nat) : Bool :=
  let text := (sig.drop (close + 1)).dropWhile isAsciiWhitespace
  let tail := text.dropWhile isIdentByte
  if tail.length = text.length then false
  else
    let after := if tail.head? = some '<' then afterAngles tail 0 else some tail
    match after with
    | none => false
    | some rest => (rest.dropWhile isAsciiWhitespace).head? = some '('

def isNameAnchored (sig : List Char) (position : Nat) : Bool :=
  match (sig.take position).reverse.dropWhile isAsciiWhitespace with
  | [] => false
  | '>' :: _ => true
  | prev :: rest =>
      let inIdent := fun c : Char => c.isAlphanum || c = '_'
      let ident := ((prev :: rest).takeWhile inIdent).reverse
      inIdent prev && ident ≠ "base".toList && ident ≠ "this".toList

/-- The length of a quoted literal past its opening quote. -/
def skipQuotedLiteral (quote : Char) : List Char → Nat
  | [] => 0
  | '\\' :: _ :: rest => skipQuotedLiteral quote rest + 2
  | c :: rest => if c = quote then 1 else skipQuotedLiteral quote rest + 1

/-- The loop of `find_method_params` from position `i` on. -/
def methodParamsFrom (sig : List Char) (i : Nat) (depth : Int) (start : Option Nat) :
    Option (Nat × Nat) :=
  if h : i < sig.length then
    let c := sig[i]
    if c = '"' ∨ c = '\u0027' then
      methodParamsFrom sig (i + 1 + skipQuotedLiteral c (sig.drop (i + 1))) depth start
    else if c = '(' then
      let start := if depth = 0 then (if isNameAnchored sig i then some i else none) else start
      methodParamsFrom sig (i + 1) (depth + 1) start
    else if c = '[' then methodParamsFrom sig (i + 1) (depth + 1) start
    else if c = ')' ∨ c = ']' then
      let depth := max (depth - 1) 0
      if depth = 0 then
        match start with
        | none => methodParamsFrom sig (i + 1) depth none
        | some s =>
            if s < i ∧ ¬(c = ')' ∧ isReturnTypeGroup sig i) then some (s, i)
            else methodParamsFrom sig (i + 1) depth none
      else methodParamsFrom sig (i + 1) depth start
    else methodParamsFrom sig (i + 1) depth start
  else none
  termination_by sig.length - i

def findMethodParams (sig : List Char) : Option (Nat × Nat) := methodParamsFrom sig 0 0 none

/-- The last of the words a text splits into. -/
def lastWord (s : List Char) : Option (List Char) :=
  match (s.reverse.dropWhile isWhiteSpace).takeWhile (!isWhiteSpace ·) with
  | [] => none
  | word => some word.reverse

def methodKey (sig : String) : String :=
  let chars := sig.toList
  match (findMethodParams chars).bind fun params => splitHeadParts chars params.1 with
  | some parts => String.ofList parts.bareName
  | none =>
      match lastWord chars with
      | some last => String.ofList (last.takeWhile (· ≠ '<'))
      | none => ""

def fieldKey (field : String) : String :=
  String.ofList (trim (field.toList.takeWhile fun c => !([':', '?', '=', ';'].contains c)))

def groupByKey {T : Type} (items : List T) (keyFn : T → String) : Std.TreeMap String (List T) :=
  items.foldl
    (fun out item => out.alter (keyFn item) fun group => some (group.getD [] ++ [item])) ∅

end Diff
end CleanCtx
