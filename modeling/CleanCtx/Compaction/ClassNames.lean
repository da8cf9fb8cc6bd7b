import CleanCtx.Compaction.Parameters
import CleanCtx.Dictionary.Symbol

/-!
The name of a class-like declaration (`extract_bare_class_name` of
`compaction/class.rs`), with the modifier and attribute strippers of
`compaction/modifiers.rs` and the locator of a parameter list of
`compaction/method.rs`. Positions count characters; the loops that shorten their
text take its length for fuel.
-/
namespace CleanCtx
namespace Compaction

def modifiersClass : List (List Char) :=
  ["export default ", "export ", "abstract ", "sealed ", "public ", "private ", "protected ",
    "internal ", "static ", "final "].map String.toList

def classKeywords : List (List Char) :=
  ["class ", "interface ", "record struct ", "record class ", "record ", "enum ",
    "struct "].map String.toList

def trimStart (s : List Char) : List Char := s.dropWhile isWhiteSpace

def firstPrefix (prefixes : List (List Char)) (s : List Char) : Option (List Char) :=
  prefixes.find? (·.isPrefixOf s)

/-- The loop of `strip_modifiers`. -/
def stripModifiersFrom (modifiers : List (List Char)) : Nat → List Char → List Char
  | 0, current => current
  | fuel + 1, current =>
      match firstPrefix modifiers current with
      | some m => stripModifiersFrom modifiers fuel (trimStart (current.drop m.length))
      | none => current

def stripModifiers (s : List Char) (modifiers : List (List Char)) : List Char :=
  stripModifiersFrom modifiers s.length (trim s)

/-- What stands behind the bracket that brings the depth back to zero. -/
def afterGroup (depth : Nat) : List Char → Option (List Char)
  | [] => none
  | '[' :: rest => afterGroup (depth + 1) rest
  | ']' :: rest => if depth ≤ 1 then some rest else afterGroup (depth - 1) rest
  | _ :: rest => afterGroup depth rest

def nextIsDecl (alphabet : Alphabet) (after : List Char) : Bool :=
  after.head?.any fun c => alphabet.isAlphanumeric c || c = '_' || isWhiteSpace c

/-- The loop of `strip_csharp_attributes`. -/
def stripAttributesFrom (alphabet : Alphabet) : Nat → List Char → List Char
  | 0, rest => rest
  | fuel + 1, rest =>
      if rest.head? ≠ some '[' then rest
      else
        match afterGroup 0 rest with
        | none => rest
        | some after =>
            if !nextIsDecl alphabet after then rest
            else if (trimStart after).head? ≠ some '[' ∧ after.head? ≠ some '\n' then trimStart after
            else stripAttributesFrom alphabet fuel (trimStart after)

def stripCsharpAttributes (alphabet : Alphabet) (text : List Char) : List Char :=
  stripAttributesFrom alphabet text.length (trimStart text)

def isAsciiWhiteSpace (c : Char) : Bool :=
  c = ' ' || c = '\t' || c = '\n' || c.toNat = 12 || c = '\r'

def isNameByte (c : Char) : Bool := c.isAlphanum || c = '_'

/-- `is_name_anchored`, of the text before the parenthesis in reverse. -/
def isNameAnchored (before : List Char) : Bool :=
  match before.dropWhile isAsciiWhiteSpace with
  | [] => false
  | '>' :: _ => true
  | c :: rest =>
      if isNameByte c then
        let ident := ((c :: rest).takeWhile isNameByte).reverse
        ident ≠ "base".toList && ident ≠ "this".toList
      else false

def isIdentByte (c : Char) : Bool := c.isAlphanum || c = '_' || c = '@'

def afterAngles (depth : Int) : List Char → Option (List Char)
  | [] => none
  | '<' :: rest => afterAngles (depth + 1) rest
  | '>' :: rest => if depth = 1 then some rest else afterAngles (depth - 1) rest
  | _ :: rest => afterAngles depth rest

/-- `is_return_type_group`, of the text behind the group. -/
def isReturnTypeGroup (after : List Char) : Bool :=
  let named := after.dropWhile isAsciiWhiteSpace
  let rest := named.dropWhile isIdentByte
  if rest.length = named.length then false
  else
    let rest := if rest.head? = some '<' then afterAngles 0 rest else some rest
    match rest with
    | none => false
    | some rest => (rest.dropWhile isAsciiWhiteSpace).head? = some '('

/-- The loop of `find_method_params`, with the characters read in reverse and how far a literal
goes on. -/
def findParamsFrom (depth : Nat) (start : Option Nat) (skip : Nat) (before : List Char) :
    List Char → Option (Nat × Nat)
  | [] => none
  | c :: rest =>
      match skip with
      | skip + 1 => findParamsFrom depth start skip (c :: before) rest
      | 0 =>
          if isQuote c then findParamsFrom depth start (skipQuotedLiteral c rest) (c :: before) rest
          else if c = '(' then
            let start := if depth = 0 then
                if isNameAnchored before then some before.length else none
              else start
            findParamsFrom (depth + 1) start 0 (c :: before) rest
          else if c = '[' then findParamsFrom (depth + 1) start 0 (c :: before) rest
          else if c = ')' ∨ c = ']' then
            if depth - 1 = 0 then
              match start with
              | some s =>
                  if s < before.length ∧ ¬(c = ')' ∧ isReturnTypeGroup rest = true) then
                    some (s, before.length)
                  else findParamsFrom 0 none 0 (c :: before) rest
              | none => findParamsFrom 0 none 0 (c :: before) rest
            else findParamsFrom (depth - 1) start 0 (c :: before) rest
          else findParamsFrom depth start 0 (c :: before) rest

def findMethodParams (sig : List Char) : Option (Nat × Nat) := findParamsFrom 0 none 0 [] sig

def closesOut (tail : List Char) : Bool := trim tail = [] || trim tail = [';']

/-- The loop of `strip_trailing_param_list`. -/
def stripParamListFrom : Nat → List Char → List Char
  | 0, cur => cur
  | fuel + 1, cur =>
      match findMethodParams cur with
      | some (opening, close) =>
          if closesOut (cur.drop (close + 1)) then stripParamListFrom fuel (trim (cur.take opening))
          else cur
      | none => cur

def stripTrailingParamList (rest : List Char) : List Char :=
  stripParamListFrom rest.length (trim rest)

def declarationLine (text : List Char) : List Char :=
  trim (((lines text).headD text).takeWhile (· ≠ '{'))

def afterKeyword (rest : List Char) : List Char :=
  match firstPrefix classKeywords rest with
  | some k => trim (rest.drop k.length)
  | none => trim rest

def isStructural (c : Char) : Bool := c = '{' || c = '}' || c = ':'

def bareName (rest : List Char) : List Char :=
  let cur := stripTrailingParamList rest
  let nameToken := (words cur).headD cur
  (nameToken.takeWhile (· ≠ '<')).rdropWhile isStructural

def extractBareClassName (alphabet : Alphabet) (text : List Char) : List Char :=
  bareName (afterKeyword
    (stripModifiers (declarationLine (stripCsharpAttributes alphabet text)) modifiersClass))

end Compaction
end CleanCtx
