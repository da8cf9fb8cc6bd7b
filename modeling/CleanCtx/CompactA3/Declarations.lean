import CleanCtx.Library.Columns
import CleanCtx.Library.Decimal
import CleanCtx.Library.Text
import CleanCtx.CompactA3.Context

/-!
The declaration rows of the compact codec (`ir/compact_a3/declarations.rs`,
`declarations/values.rs`, `declarations/parse.rs`): the encoder, and the decoder
with its loop over the lines. A row is a list of columns until it is written.
-/
namespace CleanCtx
namespace CompactA3

abbrev Row := List String

def reserved (c : Char) : Bool := c = '|' || c = '\r' || c = '\n'

/-! Writing a column (`values.rs`). -/

def requireText (value : Option String) (field : String) : Except String String :=
  match value with
  | some text => .ok text
  | none => .error (field ++ " must be a string")

def handle (value : Option String) (field : String) : Except String String := do
  let value ← requireText value field
  if value.toList.isEmpty || value.toList.any reserved then throw ("invalid " ++ field)
  pure value

def scopedHandle (value : Option String) (family : Char) (field : String) :
    Except String String := do
  let value ← handle value field
  match value.toList with
  | [] => throw ("invalid " ++ field ++ " family")
  | c :: suffix =>
      if c ≠ family then throw ("invalid " ++ field ++ " family")
      if suffix.isEmpty || !suffix.all Char.isDigit then throw ("invalid " ++ field)
      pure (String.ofList suffix)

def isBare (value : String) : Bool :=
  !value.toList.isEmpty && value ≠ "-" && value.toList.head? ≠ some '"' &&
    !value.toList.any reserved

def quotedText (value : String) : String :=
  if isBare value then value else String.ofList (JsonText.literal value.toList)

def quoted (value : Option String) (field : String) : Except String String := do
  let value ← requireText value field
  pure (quotedText value)

def optionalQuoted (value : Option String) (field : String) : Except String String :=
  if value.isNone then .ok "-" else quoted value field

def stringValues (values : List String) (field : String) : Except String (List String) :=
  values.mapM fun value => quoted (some value) field

/-! Reading a column (`parse.rs`). -/

def isBareUnsigned (column : String) : Bool :=
  !column.toList.isEmpty && column.toList.all Char.isDigit

def splitColumns (line : List Char) : Except String Row :=
  match Columns.split line with
  | some columns => .ok (columns.map String.ofList)
  | none => .error "unterminated quoted column"

def parsedString (column : String) : Except String String :=
  if column.toList.head? = some '"' then
    match JsonText.fromStr column.toList with
    | some text => .ok (String.ofList text)
    | none => .error "invalid JSON-string column"
  else if column.toList.isEmpty || column = "-" || column.toList.any reserved then
    .error "invalid bare-string column"
  else .ok column

/-- `parsed_handle` without a family. -/
def parsedHandle (column : String) : Except String String :=
  if column.toList.isEmpty || column.toList.any reserved then .error "invalid canonical handle"
  else .ok column

def parsedScopedHandle (column : String) (family : String) : Except String String :=
  if column.toList.isEmpty || !column.toList.all Char.isDigit then .error "invalid scoped handle"
  else .ok (family ++ column)

def parsedOptional (column : String) : Except String (Option String) :=
  if column = "-" then .ok none else some <$> parsedString column

def parsedCount (column message : String) : Except String Nat :=
  match Decimal.parseCount column with
  | some count => .ok count
  | none => .error message

def occurrence (columns : Row) : Except String (List String) :=
  match columns with
  | _ :: first :: rest =>
      if isBareUnsigned first then do
        let count ← parsedCount first "invalid value count"
        if rest.length ≠ count then throw "occurrence value-count mismatch"
        rest.mapM parsedString
      else do
        if rest ≠ [] then throw "occurrence value-count mismatch"
        let value ← parsedString first
        pure [value]
  | _ => .error "short occurrence record"

/-! The encoder. -/

def occurrenceRow (tag : String) (field : String) (group : List String) : Except String Row := do
  let values ← stringValues group field
  if values.length = 1 ∧ values.all (!isBareUnsigned ·) then pure (tag :: values)
  else pure (tag :: values.length.repr :: values)

def occurrenceRows (tag : String) (groups : List (List String)) (field : String) :
    Except String (List Row) :=
  groups.mapM (occurrenceRow tag field)

def accessModifiers : List String := ["EXPORT", "STATIC", "PRIVATE", "PROTECTED", "ABSTRACT"]

def keepsModifier (fidelity value : String) : Bool :=
  if fidelity = "low" then false
  else if fidelity = "medium" then !accessModifiers.contains value
  else true

def filteredModifiers (groups : List (List String)) (fidelity : String) : List (List String) :=
  groups.map fun group => group.filter (keepsModifier fidelity)

def nameCount {μ : Type} (name : μ → String) (methods : List μ) (wanted : String) : Nat :=
  methods.countP fun method => name method = wanted

/-- The columns of a field or a parameter. -/
def entryColumns (id : Option String) (family : Char) (name type : Option String)
    (what : String) : Except String Row := do
  let id ← scopedHandle id family (what ++ " id")
  let name ← quoted name (what ++ " name")
  let type ← optionalQuoted type (what ++ " type")
  pure [id, name, type]

def parameterColumns (parameter : Parameter) : Except String Row :=
  entryColumns parameter.id 'P' parameter.name parameter.type "parameter"

def fieldColumns (field : Field) : Except String Row :=
  entryColumns (some field.id) 'F' (some field.name) field.type "field"

/-- One method's rows. At low fidelity only overloads keep their parameters. -/
def methodRows (fidelity : String) (methods : List Method) (method : Method) :
    Except String (List Row) := do
  let id ← scopedHandle (some method.id) 'M' "method id"
  let name ← quoted (some method.name) "method name"
  let returnType ← optionalQuoted method.returnType "return type"
  let parameters ←
    if !method.parameters.isEmpty ∧
        (fidelity ≠ "low" ∨ nameCount (·.name) methods method.name > 1) then do
      let entries ← method.parameters.mapM parameterColumns
      pure ["p" :: method.parameters.length.repr :: entries.flatten]
    else pure []
  let modifiers ← occurrenceRows "mo" (filteredModifiers method.modifierOccurrences fidelity)
    "method modifiers"
  pure (["M", id, name, method.parameters.length.repr, returnType] :: parameters ++ modifiers)

def relationRow (tag field target : String) : Except String Row := do
  let target ← quoted (some target) field
  pure [tag, target]

def classHead (owner : Class) : Except String (List Row) := do
  let id ← scopedHandle (some owner.id) 'C' "class id"
  let name ← quoted (some owner.name) "class name"
  let parent ← owner.kind.parent.toList.mapM (relationRow "X" "class extends")
  let baseTypeRefs ← owner.kind.baseTypeRefs.mapM (relationRow "R" "base type refs")
  let implements ← owner.kind.implements.mapM (relationRow "J" "implements")
  let flags ← occurrenceRows "cf" owner.kind.classFlagOccurrences "class flags"
  pure (["C", id, name, if owner.kind.synthetic then "1" else "0"] ::
    (parent ++ baseTypeRefs ++ implements ++ flags))

def interfaceHead (owner : Interface) : Except String (List Row) := do
  let id ← scopedHandle (some owner.id) 'I' "interface id"
  let name ← quoted (some owner.name) "interface name"
  let parents ← owner.kind.parents.mapM (relationRow "X" "interface extends")
  pure (["I", id, name] :: parents)

def ownerRows {κ : Type} (head : Owner κ Method → Except String (List Row)) (fidelity : String)
    (owner : Owner κ Method) : Except String (List Row) := do
  let head ← head owner
  let modifiers ← occurrenceRows "cm" (filteredModifiers owner.modifierOccurrences fidelity)
    "owner modifiers"
  let fields ←
    if owner.fields.isEmpty then pure []
    else do
      let entries ← owner.fields.mapM fieldColumns
      pure ["F" :: owner.fields.length.repr :: entries.flatten]
  let methods ← owner.methods.mapM (methodRows fidelity owner.methods)
  pure (head ++ modifiers ++ fields ++ methods.flatten)

def fidelityLetter (mode : String) : Except String String :=
  if mode = "low" then .ok "L"
  else if mode = "medium" then .ok "M"
  else if mode = "high" then .ok "H"
  else if mode = "edit" then .ok "E"
  else .error ("unsupported A3 fidelity: " ++ mode)

def lineOf (row : Row) : List Char := Columns.join (row.map String.toList)

def textOf (rows : List Row) : List Char := rows.flatMap fun row => lineOf row ++ ['\n']

/-- The rows before the terminal one. -/
def declarationRows (normalized : Context) : Except String (List Row) := do
  let mode := normalized.mode.fidelity
  let fidelity ← fidelityLetter mode
  let file ← handle (some normalized.file.id) "file id"
  let path ← quoted (some normalized.file.sourcePath) "source path"
  let classes ← normalized.classes.mapM (ownerRows classHead mode)
  let interfaces ← normalized.interfaces.mapM (ownerRows interfaceHead mode)
  pure (["A3", "4", fidelity, file, Decimal.print normalized.file.irVersion, path] ::
    (classes.flatten ++ interfaces.flatten))

def terminalRow (owners methods : Nat) : Row := ["Z", owners.repr, methods.repr, "0", "0"]

def encodeDeclarations (normalized : Context) : Except String (List Char) := do
  let rows ← declarationRows normalized
  let owners := normalized.classes.length + normalized.interfaces.length
  pure (textOf (rows ++ [terminalRow owners normalized.allMethods.length]))

/-! The decoder. -/

/-- What the loop over the lines keeps apart from the owners. A method is found by its kind of
owner, the position of the owner and its own position there. -/
structure Cursor where
  ids : List String
  paramIds : List String
  currentMethod : Option (Bool × Nat × Nat)
  ownerCount : Nat
  methodCount : Nat
  terminal : Bool

abbrev Declared := Method × Nat

structure Decoding where
  classes : List (Owner ClassMembers Declared)
  interfaces : List (Owner InterfaceMembers Declared)
  currentOwner : Option (Bool × Nat)
  cursor : Cursor

namespace Decoding

def start : Decoding where
  classes := []
  interfaces := []
  currentOwner := none
  cursor :=
    { ids := [], paramIds := [], currentMethod := none, ownerCount := 0, methodCount := 0,
      terminal := false }

/-- A change of the owner at a position, among the interfaces or the classes. -/
def modifyOwner (s : Decoding) (interface : Bool) (owner : Nat)
    (f : ∀ {κ : Type}, Owner κ Declared → Owner κ Declared) : Decoding :=
  if interface then { s with interfaces := s.interfaces.modify owner f }
  else { s with classes := s.classes.modify owner f }

def modifyMethod (s : Decoding) (interface : Bool) (owner method : Nat) (f : Method → Method) :
    Decoding :=
  s.modifyOwner interface owner fun o =>
    { o with methods := o.methods.modify method fun (m, arity) => (f m, arity) }

def methodsOf (s : Decoding) (interface : Bool) (owner : Nat) : Nat :=
  if interface then s.interfaces[owner]?.elim 0 (·.methods.length)
  else s.classes[owner]?.elim 0 (·.methods.length)

def leaveMethod (s : Decoding) : Decoding :=
  { s with cursor := { s.cursor with currentMethod := none } }

/-- `ids.insert`, which fails for an identity that is there. -/
def claim (s : Decoding) (id : String) : Except String Decoding :=
  if id ∈ s.cursor.ids then .error "duplicate canonical ID"
  else .ok { s with cursor := { s.cursor with ids := s.cursor.ids ++ [id] } }

def claimParam (s : Decoding) (id : String) : Except String Decoding :=
  if id ∈ s.cursor.paramIds then .error "duplicate canonical ID"
  else .ok { s with cursor := { s.cursor with paramIds := s.cursor.paramIds ++ [id] } }

end Decoding

def requireSome {α : Type} (found : Option α) (message : String) : Except String α :=
  match found with
  | some a => .ok a
  | none => .error message

def triples : Row → List (String × String × String)
  | id :: name :: type :: rest => (id, name, type) :: triples rest
  | _ => []

def emptyOwner {κ : Type} (id name : String) (kind : κ) : Owner κ Declared where
  id := id
  name := name
  fields := []
  methods := []
  modifierOccurrences := []
  patterns := none
  kind := kind

def emptyMethod (id name : String) (returnType : Option String) : Method where
  id := id
  name := name
  parameters := []
  returnType := returnType
  modifierOccurrences := []
  body := none
  bodyStart := none
  bodyEnd := none
  patterns := none
  controlFlow := none
  dataFlow := none

def countOwner (s : Decoding) (interface : Bool) (owner : Nat) : Decoding :=
  { s with
    currentOwner := some (interface, owner)
    cursor :=
      { s.cursor with currentMethod := none, ownerCount := s.cursor.ownerCount + 1 } }

def decodeOwner (s : Decoding) (interface : Bool) (columns : Row) : Except String Decoding :=
  match interface, columns with
  | true, [_, id, name] => do
      let id ← parsedScopedHandle id "I"
      let s ← s.claim id
      let name ← parsedString name
      pure (countOwner
        { s with interfaces := s.interfaces ++ [emptyOwner id name { parents := [] }] }
        true s.interfaces.length)
  | false, [_, id, name, synthetic] => do
      let id ← parsedScopedHandle id "C"
      let s ← s.claim id
      let synthetic ←
        if synthetic = "0" then pure false
        else if synthetic = "1" then pure true
        else throw "invalid synthetic flag"
      let name ← parsedString name
      let members :=
        { synthetic, classFlagOccurrences := [], parent := none, baseTypeRefs := [],
          implements := [] }
      pure (countOwner { s with classes := s.classes ++ [emptyOwner id name members] }
        false s.classes.length)
  | _, _ => .error "invalid owner record"

def decodeField (interface : Bool) (owner : Nat) (s : Decoding)
    (entry : String × String × String) : Except String Decoding := do
  let id ← parsedScopedHandle entry.1 "F"
  let s ← s.claim id
  let name ← parsedString entry.2.1
  let type ← parsedOptional entry.2.2
  pure (s.modifyOwner interface owner fun o =>
    { o with fields := o.fields ++ [{ id, name, type }] })

def decodeFields (s : Decoding) (columns : Row) : Except String Decoding :=
  match columns with
  | _ :: count :: entries => do
      let (interface, owner) ← requireSome s.currentOwner "field outside owner"
      let count ← parsedCount count "invalid field count"
      if entries.length ≠ count * 3 then throw "field count mismatch"
      let s ← (triples entries).foldlM (decodeField interface owner) s
      pure s.leaveMethod
  | _ => .error "invalid field record"

def decodeMethod (s : Decoding) (columns : Row) : Except String Decoding :=
  match columns with
  | [_, id, name, arity, returnType] => do
      let (interface, owner) ← requireSome s.currentOwner "method outside owner"
      let id ← parsedScopedHandle id "M"
      let s ← s.claim id
      let arity ← parsedCount arity "invalid method arity"
      let name ← parsedString name
      let returnType ← parsedOptional returnType
      let method := s.methodsOf interface owner
      let s := s.modifyOwner interface owner fun o =>
        { o with methods := o.methods ++ [(emptyMethod id name returnType, arity)] }
      pure { s with
        cursor :=
          { s.cursor with
            currentMethod := some (interface, owner, method)
            paramIds := []
            methodCount := s.cursor.methodCount + 1 } }
  | _ => .error "invalid method record"

def decodeParameter (interface : Bool) (owner method : Nat) (s : Decoding)
    (entry : String × String × String) : Except String Decoding := do
  let id ← parsedScopedHandle entry.1 "P"
  let s ← s.claimParam id
  let name ← parsedString entry.2.1
  let type ← parsedOptional entry.2.2
  pure (s.modifyMethod interface owner method fun m =>
    { m with parameters := m.parameters ++ [{ id := some id, name := some name, type }] })

def decodeParameters (s : Decoding) (columns : Row) : Except String Decoding :=
  match columns with
  | _ :: count :: entries => do
      let (interface, owner, method) ←
        requireSome s.cursor.currentMethod "parameter outside method"
      let count ← parsedCount count "invalid parameter count"
      if entries.length ≠ count * 3 then throw "parameter count mismatch"
      (triples entries).foldlM (decodeParameter interface owner method) s
  | _ => .error "invalid parameter record"

def modifyMembers (s : Decoding) (owner : Nat) (f : ClassMembers → ClassMembers) : Decoding :=
  { s with classes := s.classes.modify owner fun o => { o with kind := f o.kind } }

def decodeRelation (s : Decoding) (columns : Row) : Except String Decoding :=
  match columns with
  | [tag, target] => do
      let (interface, owner) ← requireSome s.currentOwner "relation outside owner"
      let value ← parsedString target
      if tag = "R" then
        if interface then throw "interface cannot own unresolved base type"
        pure (modifyMembers s owner fun members =>
          { members with baseTypeRefs := members.baseTypeRefs ++ [value] }).leaveMethod
      else if tag = "J" then
        if interface then throw "interface cannot implement"
        pure (modifyMembers s owner fun members =>
          { members with implements := members.implements ++ [value] }).leaveMethod
      else if interface then
        pure { s with
          interfaces := s.interfaces.modify owner fun o =>
            { o with kind := { parents := o.kind.parents ++ [value] } } }.leaveMethod
      else if (s.classes[owner]?.bind (·.kind.parent)).isSome then throw "duplicate class extends"
      else
        pure (modifyMembers s owner fun members =>
          { members with parent := some value }).leaveMethod
  | _ => .error "invalid relation record"

def decodeOwnerFact (s : Decoding) (columns : Row) : Except String Decoding := do
  let (interface, owner) ← requireSome s.currentOwner "owner fact outside owner"
  let group ← occurrence columns
  if columns.head? = some "cm" then
    pure (s.modifyOwner interface owner fun o =>
      { o with modifierOccurrences := o.modifierOccurrences ++ [group] }).leaveMethod
  else if interface then throw "class fact under interface"
  else
    pure (modifyMembers s owner fun members =>
      { members with
        classFlagOccurrences := members.classFlagOccurrences ++ [group] }).leaveMethod

def decodeMethodFact (s : Decoding) (columns : Row) : Except String Decoding := do
  let (interface, owner, method) ←
    requireSome s.cursor.currentMethod "method fact outside method"
  let group ← occurrence columns
  pure (s.modifyMethod interface owner method fun m =>
    { m with modifierOccurrences := m.modifierOccurrences ++ [group] })

def decodeTerminal (s : Decoding) (columns : Row) : Except String Decoding :=
  match columns with
  | [_, owners, methods, "0", "0"] =>
      if Decimal.parseCount owners ≠ some s.cursor.ownerCount ∨
          Decimal.parseCount methods ≠ some s.cursor.methodCount then
        .error "terminal count mismatch"
      else .ok { s with cursor := { s.cursor with terminal := true } }
  | _ => .error "invalid Phase 1A terminal"

def decodeRow (s : Decoding) (columns : Row) : Except String Decoding :=
  match columns.headD "" with
  | "C" => decodeOwner s false columns
  | "I" => decodeOwner s true columns
  | "F" => decodeFields s columns
  | "M" => decodeMethod s columns
  | "p" => decodeParameters s columns
  | "X" => decodeRelation s columns
  | "R" => decodeRelation s columns
  | "J" => decodeRelation s columns
  | "cm" => decodeOwnerFact s columns
  | "cf" => decodeOwnerFact s columns
  | "mo" => decodeMethodFact s columns
  | "Z" => decodeTerminal s columns
  | _ => .error "unknown A3 record"

def decodeLine (s : Decoding) (line : List Char) : Except String Decoding := do
  if s.cursor.terminal then throw "content after terminal record"
  let columns ← splitColumns line
  decodeRow s columns

/-- The check of one method's declared number of parameters, which is taken away. -/
def checkedMethod (low : Bool) (methods : List Declared) (declared : Declared) :
    Except String Method :=
  let (method, expected) := declared
  let omittedUnique :=
    low && nameCount (·.1.name) methods method.name = 1 && method.parameters.length = 0
  if method.parameters.length ≠ expected ∧ omittedUnique = false then
    .error "parameter arity mismatch"
  else .ok method

def checkedOwner {κ : Type} (low : Bool) (owner : Owner κ Declared) :
    Except String (Owner κ Method) := do
  let methods ← owner.methods.mapM (checkedMethod low owner.methods)
  pure { owner with methods := methods }

/-- What the declaration lines say. -/
structure Declarations where
  file : File
  fidelity : String
  classes : List Class
  interfaces : List Interface
  deriving DecidableEq

def fidelityOf (letter : String) : Except String String :=
  if letter = "L" then .ok "low"
  else if letter = "M" then .ok "medium"
  else if letter = "H" then .ok "high"
  else if letter = "E" then .ok "edit"
  else .error "unknown A3 fidelity"

def decodeDeclarations (input : List Char) : Except String Declarations :=
  match lines input with
  | first :: second :: rest => do
      let header ← splitColumns first
      match header with
      | ["A3", "4", letter, id, version, path] =>
          let fidelity ← fidelityOf letter
          let s ← (second :: rest).foldlM decodeLine .start
          if s.cursor.terminal = false then throw "missing terminal record"
          let classes ← s.classes.mapM (checkedOwner (fidelity = "low"))
          let interfaces ← s.interfaces.mapM (checkedOwner (fidelity = "low"))
          let id ← parsedHandle id
          let irVersion ← requireSome (Decimal.parse version) "invalid IR version"
          let sourcePath ← parsedString path
          pure { file := { id, sourcePath, irVersion }, fidelity, classes, interfaces }
      | _ => throw "unsupported A3 header"
  | _ => .error "truncated A3 document"

end CompactA3
end CleanCtx
