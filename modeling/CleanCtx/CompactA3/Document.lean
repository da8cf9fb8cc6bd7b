import CleanCtx.Library.Framing
import CleanCtx.Library.Utf8
import CleanCtx.CompactA3.Declarations

/-!
Facts and bodies of the compact codec (`ir/compact_a3/facts.rs`) and the whole
document (`ir/compact_a3/document.rs`): its encoder, its decoder and the target that
a decoded document is compared with.
-/
namespace CleanCtx
namespace CompactA3

def sourceRequirement : String := "request edit or verbatim when exact source is required"

/-! Facts. Their columns are written and split as those of the declarations. -/

def importRow (entry : Import) : Except String Row := do
  let aliasName ← optionalQuoted entry.aliasName "import alias"
  let modulePath ← optionalQuoted entry.modulePath "import module"
  let namedExport ← optionalQuoted entry.namedExport "named export"
  pure ["$", aliasName, modulePath, namedExport]

def typeAliasRow (entry : TypeAlias) : Except String Row := do
  let aliasName ← optionalQuoted entry.aliasName "type alias"
  let originalType ← optionalQuoted entry.originalType "original type"
  pure ["T", aliasName, originalType]

def factRows (normalized : Context) : Except String (List Row) := do
  let imports ← normalized.imports.mapM importRow
  let typeAliases ← normalized.typeAliases.mapM typeAliasRow
  pure (imports ++ typeAliases)

/-- `string` of `facts.rs`. -/
def factString (column : String) : Except String (Option String) :=
  if column = "-" then .ok none
  else if column.toList.head? = some '"' then
    match JsonText.fromStr column.toList with
    | some text => .ok (some (String.ofList text))
    | none => .error "invalid string column"
  else if column.toList.isEmpty || column.toList.any reserved then .error "invalid string column"
  else .ok (some column)

structure Facts where
  imports : List Import
  typeAliases : List TypeAlias
  deriving DecidableEq

def decodeFact (facts : Facts) (line : List Char) : Except String Facts := do
  let row ← splitColumns line
  match row with
  | "$" :: columns =>
      match columns with
      | [aliasName, modulePath, namedExport] => do
          let aliasName ← factString aliasName
          let modulePath ← factString modulePath
          let namedExport ← factString namedExport
          pure { facts with
            imports := facts.imports ++
              [{ occurrence := facts.imports.length, aliasName, modulePath, namedExport }] }
      | _ => throw "invalid import row"
  | "T" :: columns =>
      match columns with
      | [aliasName, originalType] => do
          let aliasName ← factString aliasName
          let originalType ← factString originalType
          pure { facts with
            typeAliases := facts.typeAliases ++
              [{ occurrence := facts.typeAliases.length, aliasName, originalType }] }
      | _ => throw "invalid alias row"
  | _ => throw "unknown A3 fact record"

def decodeFacts (input : List Char) : Except String Facts :=
  (lines input).foldlM decodeFact { imports := [], typeAliases := [] }

/-! Bodies. -/

structure BodyFrame where
  methodId : String
  start : UInt64
  stop : UInt64
  body : String
  deriving DecidableEq

def bytesOf (text : List Char) : List UInt8 := utf8 (String.ofList text)

def newline : UInt8 := 10

def encodeBody (frame : BodyFrame) : List UInt8 :=
  bytesOf (textOf [["B", frame.methodId, Decimal.print frame.start, Decimal.print frame.stop,
    (utf8 frame.body).length.repr]]) ++ (utf8 frame.body ++ [newline])

/-- `split('|')`. -/
def splitBars (text : List Char) : Row := (text.splitOn '|').map String.ofList

def requireText8 (bytes : List UInt8) (message : String) : Except String (List Char) :=
  match fromUtf8 bytes with
  | some text => .ok text.toList
  | none => .error message

def decodeBody (input : List UInt8) : Except String (BodyFrame × List UInt8) := do
  let headerEnd ← requireSome (position [newline] input) "truncated body header"
  let header ← requireText8 (input.take headerEnd) "invalid body header"
  match splitBars header with
  | ["B", methodId, start, stop, length] =>
      if methodId.toList.head? ≠ some 'M' then throw "invalid body header"
      let length ← parsedCount length "invalid body length"
      let bodyInput := input.drop (headerEnd + 1)
      if bodyInput[length]? ≠ some newline then throw "truncated body frame"
      let start ← requireSome (Decimal.parse start) "invalid body start"
      let stop ← requireSome (Decimal.parse stop) "invalid body end"
      let body ← requireText8 (bodyInput.take length) "invalid body UTF-8"
      pure ({ methodId, start, stop, body := String.ofList body }, bodyInput.drop (length + 1))
  | _ => throw "invalid body header"

/-! The document. -/

/-- The frame of a method with a body. -/
def bodyFrame (method : Method) : Except String BodyFrame := do
  let start ← requireSome method.bodyStart "missing body start"
  let stop ← requireSome method.bodyEnd "missing body end"
  let body ← requireText method.body "body"
  pure { methodId := method.id, start, stop, body }

def bodyFrames (normalized : Context) : Except String (List BodyFrame) :=
  if normalized.mode.fidelity ≠ "edit" then .ok []
  else (normalized.allMethods.filter (·.body.isSome)).mapM bodyFrame

def documentTail (owners methods bodies : Nat) : List Char :=
  textOf [["Z", owners.repr, methods.repr, bodies.repr]]

def encode (normalized : Context) : Except String (List UInt8) := do
  if normalized.mode.fidelity ∉ ["low", "medium", "high", "edit"] then
    throw "unsupported A3 fidelity"
  let normalized ← renumber normalized
  let declarations ← encodeDeclarations normalized
  let (declarations, _) ← requireSome (rsplitOnce "\nZ|".toList declarations)
    "declaration fragment lacks terminal"
  let facts ← factRows normalized
  let bodies ← bodyFrames normalized
  let owners := normalized.classes.length + normalized.interfaces.length
  pure (bytesOf (declarations ++ '\n' :: (textOf facts ++ textOf [["Y", bodies.length.repr]])) ++
    (bodies.flatMap encodeBody ++
      bytesOf (documentTail owners normalized.allMethods.length bodies.length)))

/-- The first method with the identity, among the classes and then among the interfaces. -/
def modifyFirst {κ : Type} (id : String) (f : Method → Method) :
    List (Owner κ Method) → Option (List (Owner κ Method))
  | [] => none
  | owner :: owners =>
      match owner.methods.findIdx? (·.id = id) with
      | some method => some ({ owner with methods := owner.methods.modify method f } :: owners)
      | none => (modifyFirst id f owners).map (owner :: ·)

/-- `method_mut`, with the change that follows it. -/
def modifyMethodById (target : Context) (id : String) (f : Method → Method) : Option Context :=
  match modifyFirst id f target.classes with
  | some classes => some { target with classes := classes }
  | none => (modifyFirst id f target.interfaces).map fun interfaces =>
      { target with interfaces := interfaces }

def declarationTag (tag : List Char) : Bool :=
  String.ofList tag ∈ ["C", "I", "X", "R", "J", "cm", "cf", "F", "M", "p", "mo"]

def mergeBody (state : Context × List String) (frame : BodyFrame) :
    Except String (Context × List String) := do
  let (target, bodyIds) := state
  if frame.methodId ∈ bodyIds then throw "duplicate body method"
  let target ← requireSome
    (modifyMethodById target frame.methodId fun method =>
      { method with
        body := some frame.body
        bodyStart := some frame.start
        bodyEnd := some frame.stop })
    "body references unknown method"
  pure (target, bodyIds ++ [frame.methodId])

def mergeFacts (declarations : Declarations) (facts : Facts) (bodies : List BodyFrame) :
    Except String Context := do
  let target :=
    { schema := "clean-ctx/file-context"
      schemaVersion := 4
      file := declarations.file
      mode := { fidelity := declarations.fidelity, exactBodyMethodIds := [], sourceRequirement }
      classes := declarations.classes
      interfaces := declarations.interfaces
      imports := facts.imports
      typeAliases := facts.typeAliases
      calls := none }
  let (target, bodyIds) ← bodies.foldlM mergeBody (target, [])
  pure { target with mode := { target.mode with exactBodyMethodIds := bodyIds } }

def parseOrdinal (id : Option String) (family : Char) : Except String Nat := do
  let text ← requireSome id "identity must be a string"
  match text.toList with
  | c :: suffix =>
      if c ≠ family then throw "wrong identity family"
      parsedCount (String.ofList suffix) "invalid identity ordinal"
  | [] => throw "wrong identity family"

def validateDense (family : String) (ordinals : List Nat) : Except String Unit :=
  ordinals.zipIdx.forM fun (ordinal, position) =>
    if ordinal ≠ position + 1 then
      .error ("non-dense " ++ family ++ " identity: position " ++ (position + 1).repr ++
        " has ordinal " ++ ordinal.repr)
    else .ok ()

/-- The ordinals of one owner's fields and methods. -/
def ownerOrdinals {κ : Type} (owner : Owner κ Method) : Except String (List Nat × List Nat) := do
  let fields ← owner.fields.mapM fun field => parseOrdinal (some field.id) 'F'
  let methods ← owner.methods.mapM fun method => do
    let ordinal ← parseOrdinal (some method.id) 'M'
    let parameters ← method.parameters.mapM fun parameter => parseOrdinal parameter.id 'P'
    validateDense "parameter" parameters
    pure ordinal
  pure (fields, methods)

def validateDenseIdentities (value : Context) : Except String Unit := do
  let classes ← value.classes.mapM fun owner => parseOrdinal (some owner.id) 'C'
  validateDense "class" classes
  let interfaces ← value.interfaces.mapM fun owner => parseOrdinal (some owner.id) 'I'
  validateDense "interface" interfaces
  let classMembers ← value.classes.mapM ownerOrdinals
  let interfaceMembers ← value.interfaces.mapM ownerOrdinals
  let members := classMembers ++ interfaceMembers
  validateDense "method" (members.flatMap (·.2))
  validateDense "field" (members.flatMap (·.1))

def decodeFrames : Nat → List UInt8 → Except String (List BodyFrame × List UInt8)
  | 0, remaining => .ok ([], remaining)
  | count + 1, remaining => do
      let (frame, remaining) ← decodeBody remaining
      let (frames, remaining) ← decodeFrames count remaining
      pure (frame :: frames, remaining)

def startsWith (head : String) (line : List Char) : Bool := head.toList.isPrefixOf line

/-- `trim_end_matches('\n')`. -/
def trimNewlines (text : List Char) : List Char :=
  (text.reverse.dropWhile (· = '\n')).reverse

def decode (input : List UInt8) : Except String Context := do
  let sectionStart ← requireSome (position (utf8 "\nY|") input) "missing body section"
  let text ← requireText8 (input.take sectionStart) "invalid A3 text UTF-8"
  let (declarationLines, factLines) := (lines text).zipIdx.partition fun (line, index) =>
    index = 0 || declarationTag (line.takeWhile (· ≠ '|'))
  let declarationLines := declarationLines.map (·.1)
  let owners := declarationLines.countP fun line => startsWith "C|" line || startsWith "I|" line
  let methods := declarationLines.countP (startsWith "M|")
  let declarations ← decodeDeclarations
    (['\n'].intercalate declarationLines ++ '\n' :: textOf [terminalRow owners methods])
  let facts ← decodeFacts (['\n'].intercalate (factLines.map (·.1)))
  let afterMarker := input.drop (sectionStart + 1)
  let headerEnd ← requireSome (position [newline] afterMarker) "truncated body section"
  let bodyHeader ← requireText8 (afterMarker.take headerEnd) "invalid body section"
  let bodyCount ← requireSome ("Y|".toList.isPrefixOf? bodyHeader) "invalid body section"
  let bodyCount ← parsedCount (String.ofList bodyCount) "invalid body count"
  let (bodies, remaining) ← decodeFrames bodyCount (afterMarker.drop (headerEnd + 1))
  let terminal ← requireText8 remaining "invalid terminal UTF-8"
  match splitBars (trimNewlines terminal) with
  | "Z" :: counts =>
      if counts.length ≠ 3 then throw "invalid terminal record"
      if counts.map Decimal.parseCount ≠ [some owners, some methods, some bodyCount] then
        throw "terminal count mismatch"
      let merged ← mergeFacts declarations facts bodies
      validateDenseIdentities merged
      pure merged
  | _ => throw "invalid terminal record"

/-! The target. -/

def targetMethod (fidelity : String) (methods : List Method) (method : Method) : Method :=
  { method with
    modifierOccurrences := filteredModifiers method.modifierOccurrences fidelity
    parameters :=
      if fidelity = "low" ∧ nameCount (·.name) methods method.name = 1 then []
      else method.parameters
    body := if fidelity = "edit" then method.body else none
    bodyStart := if fidelity = "edit" then method.bodyStart else none
    bodyEnd := if fidelity = "edit" then method.bodyEnd else none
    patterns := none
    controlFlow := none
    dataFlow := none }

def targetOwner {κ : Type} (fidelity : String) (owner : Owner κ Method) : Owner κ Method :=
  { owner with
    patterns := none
    modifierOccurrences := filteredModifiers owner.modifierOccurrences fidelity
    methods := owner.methods.map (targetMethod fidelity owner.methods) }

def targetOf (normalized : Context) : Context :=
  let fidelity := normalized.mode.fidelity
  { schema := "clean-ctx/file-context"
    schemaVersion := 4
    file := normalized.file
    mode :=
      { fidelity
        exactBodyMethodIds := (normalized.allMethods.filter fun method =>
          fidelity = "edit" ∧ method.body.isSome).map (·.id)
        sourceRequirement }
    classes := normalized.classes.map (targetOwner fidelity)
    interfaces := normalized.interfaces.map (targetOwner fidelity)
    imports := normalized.imports
    typeAliases := normalized.typeAliases
    calls := none }

def target (normalized : Context) : Except String Context := targetOf <$> renumber normalized

end CompactA3
end CleanCtx
