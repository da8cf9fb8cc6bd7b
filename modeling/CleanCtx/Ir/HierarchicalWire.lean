import CleanCtx.Library.JsonRecords
import CleanCtx.Ir.HierarchicalDecode
import CleanCtx.Ir.Wire

/-!
The hierarchical wire form (`ir/hierarchical.rs`, `hierarchical/migrate.rs`, `nodes.rs`): reading
the nodes from JSON, and the upgrades of older revisions, which change the JSON before it is read.
-/
namespace CleanCtx
namespace Hierarchical

open Value

/-! The derived deserializers. A field list gives the serialized names in their order. -/

def readString (value : Value) : Option String := value.asStr

def readStrings (value : Value) : Option (List String) := readArray readString value

def readControlSummary : Value → Option ControlSummary :=
  readUnitVariant ControlSummary.fromSerialized

def readModifier : Value → Option DeclarationModifier :=
  readUnitVariant DeclarationModifier.fromSerialized

def readSideEffect : Value → Option SideEffectKind := readUnitVariant SideEffectKind.fromSerialized

def readExecutionContext : Value → Option ExecutionContextKind :=
  readUnitVariant ExecutionContextKind.fromSerialized

/-- The variant a tag names, given its content. -/
def patternFactOf (tag : String) (content : Option Value) : Option PatternFact :=
  match tag, content with
  | "CTOR", none | "CTOR", some .null => some .constructor
  | "OBSERVABLE", none | "OBSERVABLE", some .null => some .observable
  | "OVERRIDE", none | "OVERRIDE", some .null => some .override
  | "GETTER", some (.string property) => some (.getter property)
  | "SETTER", some (.string property) => some (.setter property)
  | _, _ => none

/-- Tagged with `k`, its content under `v`; as an array, both are there. -/
def readPatternFact : Value → Option PatternFact
  | .object members => do
      let tag ← (members.lookup "k").bind (readUnitVariant some)
      patternFactOf tag (members.lookup "v")
  | .array [tag, content] => (readUnitVariant some tag).bind (patternFactOf · (some content))
  | _ => none

def patternEntryFields : List String := ["n", "a"]

def readPatternEntry (value : Value) : Option PatternEntry := do
  guard (isStruct patternEntryFields value)
  let field := structField patternEntryFields value
  let name ← (field "n").bind readString
  let args ← readDefault readString (field "a")
  some { name, args }

def fieldNodeFields : List String := ["n", "nm", "t"]

def readFieldNode (value : Value) : Option FieldNode := do
  guard (isStruct fieldNodeFields value)
  let field := structField fieldNodeFields value
  let id ← (field "n").bind readString
  let name ← (field "nm").bind readString
  let fieldType ← readOption readString (field "t")
  some { id, name, fieldType }

def methodNodeFields : List String :=
  ["n", "nm", "p", "r", "mo", "cs", "pf", "fl", "pa", "b", "bs", "be", "cf", "df", "se", "ec"]

def readMethodNode (value : Value) : Option MethodNode := do
  guard (isStruct methodNodeFields value)
  let field := structField methodNodeFields value
  let id ← (field "n").bind readString
  let name ← (field "nm").bind readString
  let params ← readDefault readStrings (field "p")
  let returnType ← readOption readString (field "r")
  let modifiers ← readDefault (readArray readModifier) (field "mo")
  let controlSummaries ← readDefault (readArray readControlSummary) (field "cs")
  let patternFacts ← readDefault (readArray readPatternFact) (field "pf")
  let flags ← readDefault readStrings (field "fl")
  let patterns ← readDefault readPatternEntry (field "pa")
  let body ← readOption readString (field "b")
  let bodyStart ← readOption asU64 (field "bs")
  let bodyEnd ← readOption asU64 (field "be")
  let controlFlow ← readDefault readStrings (field "cf")
  let dataFlow ← readDefault readStrings (field "df")
  let sideEffect ← readDefault readSideEffect (field "se")
  let executionContext ← readDefault readExecutionContext (field "ec")
  some {
    id, name, params, returnType, modifiers, controlSummaries, patternFacts, flags, patterns, body,
    bodyStart, bodyEnd, controlFlow, dataFlow, sideEffect, executionContext }

def classNodeFields : List String :=
  ["n", "nm", "m", "f", "mo", "fl", "x", "br", "im", "ij", "p", "sy"]

def readClassNode (value : Value) : Option ClassNode := do
  guard (isStruct classNodeFields value)
  let field := structField classNodeFields value
  let id ← (field "n").bind readString
  let name ← (field "nm").bind readString
  let methods ← readDefault readMethodNode (field "m")
  let fields ← readDefault readFieldNode (field "f")
  let modifiers ← readDefault (readArray readModifier) (field "mo")
  let classFlags ← readDefault readStrings (field "fl")
  let parent ← readOption readString (field "x")
  let baseTypeRefs ← readDefault readString (field "br")
  let implements ← readDefault readString (field "im")
  let injects ← readDefault readStrings (field "ij")
  let patterns ← readDefault readPatternEntry (field "p")
  let synthetic ← readFlag (field "sy")
  some {
    id, name, methods, fields, modifiers, classFlags, parent, baseTypeRefs, implements, injects,
    patterns, synthetic }

def interfaceNodeFields : List String := ["n", "nm", "m", "f", "mo", "x"]

def readInterfaceNode (value : Value) : Option InterfaceNode := do
  guard (isStruct interfaceNodeFields value)
  let field := structField interfaceNodeFields value
  let id ← (field "n").bind readString
  let name ← (field "nm").bind readString
  let methods ← readDefault readMethodNode (field "m")
  let fields ← readDefault readFieldNode (field "f")
  let modifiers ← readDefault (readArray readModifier) (field "mo")
  let parents ← readDefault readString (field "x")
  some { id, name, methods, fields, modifiers, parents }

def callFields : List String := ["c", "n", "a", "s"]

def readHierarchicalCall (value : Value) : Option HierarchicalCall := do
  guard (isStruct callFields value)
  let field := structField callFields value
  let caller ← (field "c").bind readString
  let callee ← (field "n").bind readString
  let explicitArgCount ← (field "a").bind asU64
  let hasSpread ← readFlag (field "s")
  some { caller, callee, explicitArgCount, hasSpread }

def hierarchyFields : List String := ["c", "if", "i", "t", "ca"]

def readHierarchicalIR (value : Value) : Option HierarchicalIR := do
  guard (isStruct hierarchyFields value)
  let field := structField hierarchyFields value
  let classes ← (field "c").bind (readArray readClassNode)
  let interfaces ← readDefault readInterfaceNode (field "if")
  let imports ← readDefault readStrings (field "i")
  let typeAliases ← readDefault readStrings (field "t")
  let calls ← readDefault readHierarchicalCall (field "ca")
  some { classes, interfaces, imports, typeAliases, calls }

/-! The upgrades. -/

def upgradeFlatOccurrences (field description : String) :
    Value → Except DecodeError Value :=
  changeMember field fun value =>
    match value.asArray with
    | none => .error (.invalidInput
        ("hierarchical revision-2 " ++ description ++ " must be an array"))
    | some payload =>
        if !payload.all (·.asStr.isSome) then .error (.invalidInput
          ("hierarchical revision-2 " ++ description ++ " must contain strings"))
        else if payload.isEmpty && field = "ij" then .ok value
        else .ok (array [array payload])

def upgradeLegacyScalar (field description : String) : Value → Except DecodeError Value :=
  changeMember field fun value =>
    if value.asStr.isSome then .ok (array [value])
    else .error (.invalidInput ("legacy hierarchical " ++ description ++ " must be a string"))

def upgradeLegacyFlags : Value → Except DecodeError Value :=
  changeMember "fl" fun flags =>
    match flags.asArray with
    | none => .error (.invalidInput "legacy hierarchical flags must be an array")
    | some payload =>
        if !payload.all (·.asStr.isSome) then
          .error (.invalidInput "legacy hierarchical flags must contain strings")
        else .ok (array [array payload])

def upgradeLegacyMethod (method : Value) : Except DecodeError Value := do
  let method ← upgradeLegacyFlags method
  let method ← upgradeLegacyScalar "se" "side effect" method
  upgradeLegacyScalar "ec" "execution context" method

def upgradeRevision2Class (owner : Value) : Except DecodeError Value := do
  let owner ← upgradeFlatOccurrences "fl" "class flags" owner
  upgradeFlatOccurrences "ij" "injections" owner

def upgradeLegacyClass (owner : Value) : Except DecodeError Value := do
  let owner ← upgradeRevision2Class owner
  changeMember "m" (fun methods =>
    match methods.asArray with
    | none => .error (.invalidInput "legacy hierarchical method list must be an array")
    | some methods => (methods.mapM upgradeLegacyMethod).map array) owner

/-- The loop over the classes, where there is an array of them. -/
def upgradeClasses (upgradeClass : Value → Except DecodeError Value) :
    Value → Except DecodeError Value :=
  changeMember "c" fun classes =>
    match classes.asArray with
    | none => .ok classes
    | some classes => (classes.mapM upgradeClass).map array

def upgradeLegacyHierarchy : Value → Except DecodeError Value := upgradeClasses upgradeLegacyClass

def upgradeRevision2Hierarchy : Value → Except DecodeError Value :=
  upgradeClasses upgradeRevision2Class

def isControl (value : Value) : Bool := (value.asStr.bind ControlSummary.fromSerialized).isSome

/-- The control summaries of each occurrence move to `cs`; an occurrence left empty goes. -/
def moveControlSummaries (method : Value) : Value :=
  match (method.get "fl").bind asArray with
  | none => method
  | some occurrences =>
      let summaries := (occurrences.map (·.items.filter isControl)).filter (!·.isEmpty)
      let kept := (occurrences.map (mapItems (List.filter (!isControl ·)))).filter
        fun occurrence => occurrence.asArray.all (!·.isEmpty)
      let method := mapMember "fl" (fun _ => array kept) method
      if summaries.isEmpty then method else assign "cs" (array (summaries.map array)) method

/-- `serde_json::to_value`. -/
def patternFactValue (fact : PatternFact) : Value :=
  match fact with
  | .getter property | .setter property =>
      object [("k", string fact.kind), ("v", string property)]
  | _ => object [("k", string fact.kind)]

def occurrenceFacts (occurrence : Value) : Option (List PatternFact) :=
  (occurrence.asArray.bind (·.mapM asStr)).bind PatternFact.parseAll

/-- The occurrences that parse whole move to `pf`. -/
def movePatternFacts (method : Value) : Value :=
  match (method.get "fl").bind asArray with
  | none => method
  | some occurrences =>
      let moved := occurrences.filterMap occurrenceFacts
      let kept := occurrences.filter fun occurrence => (occurrenceFacts occurrence).isNone
      let method := mapMember "fl" (fun _ => array kept) method
      if moved.isEmpty then method
      else assign "pf" (array (moved.map fun facts => array (facts.map patternFactValue))) method

def mapClassMethods (move : Value → Value) : Value → Value :=
  mapMember "c" (mapItems (List.map (mapMember "m" (mapItems (List.map move)))))

def upgradeRevision4ControlSummaries : Value → Value := mapClassMethods moveControlSummaries

def upgradeRevision5PatternFacts : Value → Value := mapClassMethods movePatternFacts

/-- The upgrade of a revision; none is given by an unversioned document. -/
def upgrade (revision : Option UInt64) (ir : Value) : Except DecodeError Value :=
  match revision with
  | none => upgradeLegacyHierarchy ir
  | some 2 => do
      let ir ← upgradeRevision2Hierarchy ir
      .ok (upgradeRevision5PatternFacts (upgradeRevision4ControlSummaries ir))
  | some 3 | some 4 => .ok (upgradeRevision5PatternFacts (upgradeRevision4ControlSummaries ir))
  | some 5 => .ok (upgradeRevision5PatternFacts ir)
  | some _ => .ok ir

def schemaRevision (value : Value) : Except DecodeError (Option UInt64) :=
  match value.get "hs" with
  | none => .ok none
  | some revision =>
      match revision.asU64 with
      | none => .error (.invalidInput "hierarchical schema version must be an integer")
      | some revision =>
          if 2 ≤ revision ∧ revision ≤ 9 then .ok (some revision)
          else .error (.invalidInput
            ("unsupported hierarchical schema version: " ++ Decimal.print revision))

/-- The text of a deserializer's error is left out. -/
def wireToIr (value : Value) : Except DecodeError CompiledIR := do
  let fileId ← ((value.get "file").bind (·.asStr)).elim (.error (.missingField "file")) .ok
  let version ← ((value.get "v").bind (·.asU64)).elim (.error (.missingField "v")) .ok
  let revision ← schemaRevision value
  let ir ← (value.get "ir").elim (.error (.missingField "ir")) .ok
  let ir ← upgrade revision ir
  let hir ← (readHierarchicalIR ir).elim (.error (.invalidInput "hierarchical decode: ")) .ok
  .ok { fileId, instructions := hierarchicalToIr hir, version }

end Hierarchical
end CleanCtx
