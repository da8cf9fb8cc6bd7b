import Std.Data.TreeMap.Lemmas
import CleanCtx.Library.WordScan
import CleanCtx.Ir.Opcodes

/-!
The type-alias pass over the instructions (`ir/type_aliases.rs`) and the text pass
it applies to each type (`compression/type_aliases.rs`). The pairs that a type
used reach the appended instructions through a footer that is rendered and parsed.
-/
namespace CleanCtx
namespace TypeAliases

def minOriginalLen : Nat := 4

/-- `$`, then letters, digits and underscores, but not digits alone. -/
def isValidAlias (token : String) : Bool :=
  match token.toList with
  | '$' :: rest =>
      !rest.isEmpty && rest.all (fun c => c.isAlphanum || c = '_') && !rest.all Char.isDigit
  | _ => false

/-- The bytes of a character beyond ASCII are boundaries, as the character is here. -/
def isBoundaryChar (c : Char) : Bool := !c.isAlphanum && c ≠ '_' && c ≠ '$'

def isBoundaryBefore (previous : Option Char) : Bool := previous.all isBoundaryChar

def isBoundaryAfter (rest : List Char) : Bool := rest.head?.all isBoundaryChar

/-- The valid pairs, longest original first. -/
def candidates (aliases : Std.TreeMap String String) : List (String × String) :=
  (aliases.toList.filter fun (original, token) =>
    isValidAlias token && decide (minOriginalLen ≤ original.utf8ByteSize)).mergeSort
      fun p q => decide (q.1.utf8ByteSize ≤ p.1.utf8ByteSize)

/-- The first pair whose original stands here between boundaries. -/
def matchAt (pairs : List (String × String)) (previous : Option Char) (text : List Char) :
    Option (String × String) :=
  pairs.find? fun (original, _) =>
    original.toList.isPrefixOf text && isBoundaryBefore previous &&
      isBoundaryAfter (text.drop original.toList.length)

/-- The loop over the body; the number counts the characters of a match that are still to be
passed. -/
def scanFrom (pairs : List (String × String)) : Nat → Option Char → List Char → List Piece
  | _, _, [] => []
  | n + 1, _, c :: rest => scanFrom pairs n (some c) rest
  | 0, previous, c :: rest =>
      match matchAt pairs previous (c :: rest) with
      | some (original, token) =>
          .replaced original.toList token.toList ::
            scanFrom pairs (original.toList.length - 1) (some c) rest
      | none => .kept c :: scanFrom pairs 0 (some c) rest

def scan (pairs : List (String × String)) (body : String) : List Piece :=
  scanFrom pairs 0 none body.toList

/-- The pairs that a scan used, in order. -/
def uses (pieces : List Piece) : List (String × String) :=
  pieces.filterMap fun
    | .replaced original token => some (String.ofList original, String.ofList token)
    | .kept _ => none

def firstUses (used : List (String × String)) : List (String × String) :=
  used.foldl (fun seen p => if seen.any (·.1 == p.1) then seen else seen ++ [p]) []

def buildFooter (used : List (String × String)) : String :=
  if used.isEmpty then ""
  else used.foldl (fun footer (original, token) => footer ++ " " ++ token ++ "→" ++ original) "§TA"

def applyTypeAliases (body : String) (aliases : Std.TreeMap String String) : String × String :=
  let pairs := candidates aliases
  if pairs.isEmpty then (body, "")
  else
    let pieces := scan pairs body
    (String.ofList (pieces.flatMap Piece.after), buildFooter (firstUses (uses pieces)))

/-- `split_once('→')`. -/
def splitOnceArrow (entry : List Char) : Option (String × String) :=
  if '→' ∈ entry then
    some (String.ofList (entry.takeWhile (· ≠ '→')), String.ofList (entry.dropWhile (· ≠ '→')).tail)
  else none

/-- The pairs of a footer, each with the alias first. -/
def parseTaFooter (footer : String) : List (String × String) :=
  match "§TA ".toList.isPrefixOf? footer.toList with
  | some rest => (rest.splitOn ' ').filterMap splitOnceArrow
  | none => []

abbrev Used := Std.TreeMap String String

def substituteTypeInOp (aliases : Std.TreeMap String String) (type : String) (used : Used) :
    String × Used :=
  let (substituted, footer) := applyTypeAliases type aliases
  if substituted ≠ "" ∧ substituted ≠ type then
    (substituted, (parseTaFooter footer).foldl (fun used p => used.insert p.1 p.2) used)
  else (type, used)

/-- The instructions with a type operand. -/
def substituteOp (aliases : Std.TreeMap String String) (op : CoreOp) (used : Used) :
    CoreOp × Used :=
  match op with
  | .fieldType fieldId type =>
      let (type, used) := substituteTypeInOp aliases type used
      (.fieldType fieldId type, used)
  | .ret methodId type =>
      let (type, used) := substituteTypeInOp aliases type used
      (.ret methodId type, used)
  | .param methodId paramId type name =>
      let (type, used) := substituteTypeInOp aliases type used
      (.param methodId paramId type name, used)
  | op => (op, used)

def substituteOps (aliases : Std.TreeMap String String) : List CoreOp → Used → List CoreOp × Used
  | [], used => ([], used)
  | op :: ops, used =>
      let (op, used) := substituteOp aliases op used
      let (ops, used) := substituteOps aliases ops used
      (op :: ops, used)

def applyTypeAliasesToIr (instructions : List CoreOp) (aliases : Std.TreeMap String String) :
    List CoreOp :=
  if aliases.isEmpty then instructions
  else
    let (ops, used) := substituteOps aliases instructions ∅
    ops ++ used.toList.map fun (token, original) => .typeAlias token original

end TypeAliases
end CleanCtx
