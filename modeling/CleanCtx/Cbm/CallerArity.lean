import CleanCtx.Dictionary.Symbol
import CleanCtx.Library.SyntaxNodes

/-!
Arity evidence from C# sources (`cbm/caller_verify_arity.rs`). The parser is a
parameter: for a text that is complete it gives a tree whose nodes span the
keywords they hold.
-/
namespace CleanCtx
namespace Cbm

def hasWord (alphabet : Alphabet) (text needle : String) : Bool :=
  (text.toList.splitOnP alphabet.endsWord).contains needle.toList

/-- The declaration has a receiver: the `this` modifier of a parameter. -/
def isReceiver (parameter : Node) : Bool :=
  parameter.children.any fun child => child.kind = "modifier" && child.text = "this"

def hasDefault (parameter : Node) : Bool := parameter.children.any (·.kind = "=")

/-- A parameter array has no node of its own: its tokens stand in the list. -/
def hasParamsArray (parameters : Node) : Bool := parameters.children.any (·.kind = "params")

/-- The text of a node has the keywords among its children, and arguments are named nodes. -/
structure Spelled (alphabet : Alphabet) (node : Node) : Prop where
  receiver : isReceiver node = true → hasWord alphabet node.text "this" = true
  default : hasDefault node = true → '=' ∈ node.text.toList
  params : hasParamsArray node = true → hasWord alphabet node.text "params" = true
  argument : node.kind = "argument" → node.named = true

/-- A tree without errors. -/
structure Tree (alphabet : Alphabet) where
  rootNode : Node
  spelled : ∀ node, rootNode.Within node → Spelled alphabet node

structure ArityShape where
  declared : Nat
  minimumExplicit : Nat
  maximumExplicit : Option Nat
  flexible : Bool
  deriving DecidableEq, Repr

namespace ArityShape

def accepts (shape : ArityShape) (observed : Nat) : Bool :=
  shape.minimumExplicit ≤ observed &&
    match shape.maximumExplicit with
    | none => true
    | some maximum => observed ≤ maximum

def exactExplicit (shape : ArityShape) : Option Nat :=
  match shape.maximumExplicit with
  | some maximum =>
      if maximum = shape.minimumExplicit ∧ shape.flexible = false then some maximum else none
  | none => none

end ArityShape

def aritiesOverlap (left right : ArityShape) : Bool :=
  let lower := max left.minimumExplicit right.minimumExplicit
  match left.maximumExplicit, right.maximumExplicit with
  | some leftMax, some rightMax => lower ≤ min leftMax rightMax
  | some leftMax, none => lower ≤ leftMax
  | none, some rightMax => lower ≤ rightMax
  | none, none => true

structure ParseMemo (alphabet : Alphabet) where
  trees : List (String × Option (Tree alphabet))

variable {alphabet : Alphabet}

def ParseMemo.new : ParseMemo alphabet := { trees := [] }

def ParseMemo.tree (parseTree : String → Option (Tree alphabet)) (memo : ParseMemo alphabet)
    (key source : String) : Option (Tree alphabet) × ParseMemo alphabet :=
  match memo.trees.lookup key with
  | some memoized => (memoized, memo)
  | none => (parseTree source, { trees := (key, parseTree source) :: memo.trees })

def parameterNodes (parameters : Node) : List Node :=
  parameters.namedChildren.filter (·.kind = "parameter")

/-- What `declaration_arity` makes of a parameter list. -/
def arityOf (alphabet : Alphabet) (parameters : Node) : ArityShape :=
  let texts := (parameterNodes parameters).map (·.text)
  let hasParams := hasWord alphabet parameters.text "params"
  let declared := texts.length + hasParams.toNat
  let extensionReceiver := texts.head?.any fun text => hasWord alphabet text "this"
  let receiverAdjustment := extensionReceiver.toNat
  let optional := texts.countP (·.toList.contains '=')
  { declared
    minimumExplicit := declared - receiverAdjustment - optional - hasParams.toNat
    maximumExplicit := if hasParams then none else some (declared - receiverAdjustment)
    flexible := 0 < optional || hasParams }

def declarationArity (alphabet : Alphabet) (node : Node) : Option ArityShape :=
  (node.childByFieldName "parameters").map (arityOf alphabet)

def nameText (node : Node) : Option String := (node.childByFieldName "name").map (·.text)

/-- The name of the nearest type among the ancestors. -/
def enclosingTypeName : List Node → Option String
  | [] => none
  | parent :: rest =>
      if ["class_declaration", "struct_declaration", "record_declaration"].contains parent.kind then
        nameText parent
      else enclosingTypeName rest

/-- The declarations of a method, by the type that encloses them. -/
def methodNodes (tree : Tree alphabet) (methodName : String) (typeName : Option String) :
    List Node :=
  (((tree.rootNode.collectKind "method_declaration" []).filter fun found =>
      nameText found.2 = some methodName).filter fun found =>
        typeName.all fun name => enclosingTypeName found.1 = some name).map (·.2)

def declarationsOf (tree : Tree alphabet) (methodName : String) (typeName : Option String) :
    List ArityShape :=
  (methodNodes tree methodName typeName).filterMap (declarationArity alphabet)

/-- `text.rsplit('.').next()`. -/
def lastSegment (text : String) : String :=
  String.ofList ((text.toList.splitOn '.').getLastD [])

def invocationName (node : Node) : Option String :=
  (node.childByFieldName "function").bind fun function =>
    if function.kind = "member_access_expression" then nameText function
    else some (lastSegment function.text)

def invocationArguments (tree : Tree alphabet) (methodName : String) : List Node :=
  ((tree.rootNode.collectKind "invocation_expression" []).filter fun found =>
    invocationName found.2 = some methodName).filterMap fun found =>
      found.2.childByFieldName "arguments"

def invocationAritiesOf (tree : Tree alphabet) (methodName : String) : List Nat :=
  (invocationArguments tree methodName).map (·.namedChildCount)

end Cbm
end CleanCtx
