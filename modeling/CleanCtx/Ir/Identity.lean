import CleanCtx.Library.PositionIndex
import CleanCtx.Ir.Opcodes

/-!
Semantic identity validation (`ir/identity.rs` and its submodules): one pass
collects definitions and singular facts, a second one resolves every reference
against the collected index. Positions only occur in errors.
-/
namespace CleanCtx

inductive IdentityKind
  | «class» | method | field | parameter | interface | importAlias | typeAlias
  deriving DecidableEq

structure ClassId where
  raw : String
  deriving DecidableEq

structure InterfaceId where
  raw : String
  deriving DecidableEq

structure MethodId where
  raw : String
  deriving DecidableEq

structure FieldId where
  raw : String
  deriving DecidableEq

structure ParameterId where
  raw : String
  deriving DecidableEq

/-- A structured identity failure shared by validation and projection. -/
inductive IdentityError
  | duplicateIdentity (operation : String) (kind : IdentityKind) (id : String)
      (owner : Option String) (firstInstruction duplicateInstruction : Nat)
  | invalidIdentity (operation : String) (kind : IdentityKind) (id : String)
      (owner : Option String) (instruction : Nat) (reason : String)
  | unresolvedIdentity (operation : String) (expected : IdentityKind) (id : String)
      (instruction : Nat)
  | kindMismatch (operation id : String) (expected actual : IdentityKind) (instruction : Nat)
  | duplicateReturn (methodId : String) (firstInstruction duplicateInstruction : Nat)
  | duplicateFieldType (fieldId : String) (firstInstruction duplicateInstruction : Nat)
  | duplicateFact (operation : String) (targetKind : IdentityKind) (targetId : String)
      (firstInstruction duplicateInstruction : Nat)
  | invalidOperation (operation : String) (instruction : Nat) (detail : String)
  | ownerMismatch (operation id expectedOwner : String) (instruction : Nat)
  deriving DecidableEq

structure IdentityIndex where
  classes : HashMap ClassId Nat
  methods : HashMap MethodId Nat
  fields : HashMap FieldId Nat
  methodOwners : HashMap MethodId ClassId
  interfaceMethodOwners : HashMap MethodId InterfaceId
  interfaceFieldOwners : HashMap FieldId InterfaceId
  interfaces : HashMap InterfaceId Nat

structure SingularFacts where
  parameters : HashMap (MethodId × ParameterId) Nat
  returns : HashMap MethodId Nat
  fieldTypes : HashMap FieldId Nat
  classBases : HashMap ClassId Nat
  bodies : HashMap MethodId Nat
  importAliases : HashMap String Nat

abbrev Checked := Except IdentityError

namespace Contracts

def requireNonEmpty (operation : String) (kind : IdentityKind) (rawId : String)
    (owner : Option String) (instruction : Nat) : Checked Unit :=
  if rawId = "" then
    .error (.invalidIdentity operation kind rawId owner instruction "identity must not be empty")
  else .ok ()

def registerDefinitionKind (definitions : HashMap String IdentityKind) (operation rawId : String)
    (kind : IdentityKind) (instruction : Nat) : Checked (HashMap String IdentityKind) :=
  match definitions.lookup rawId with
  | some actual =>
      if actual = kind then .ok definitions
      else .error (.kindMismatch operation rawId kind actual instruction)
  | none => .ok (definitions.insert rawId kind)

def insertDefinition {κ : Type} [DecidableEq κ] (definitions : HashMap κ Nat) (key : κ)
    (operation : String) (kind : IdentityKind) (rawId : String) (owner : Option String)
    (instruction : Nat) : Checked (HashMap κ Nat) :=
  match definitions.lookup key with
  | some first => .error (.duplicateIdentity operation kind rawId owner first instruction)
  | none => .ok (definitions.insert key instruction)

def insertSingular {κ : Type} [DecidableEq κ] (facts : HashMap κ Nat) (key : κ)
    (operation : String) (targetKind : IdentityKind) (targetId : String) (instruction : Nat) :
    Checked (HashMap κ Nat) :=
  match facts.lookup key with
  | some first => .error (.duplicateFact operation targetKind targetId first instruction)
  | none => .ok (facts.insert key instruction)

/-- The three accumulators of the first pass. -/
structure Collector where
  index : IdentityIndex
  facts : SingularFacts
  definitionKinds : HashMap String IdentityKind

def Collector.empty : Collector where
  index :=
    { classes := ∅, methods := ∅, fields := ∅, methodOwners := ∅, interfaceMethodOwners := ∅
      interfaceFieldOwners := ∅, interfaces := ∅ }
  facts :=
    { parameters := ∅, returns := ∅, fieldTypes := ∅, classBases := ∅, bodies := ∅
      importAliases := ∅ }
  definitionKinds := ∅

/-- One instruction of `collect_definitions_and_singular_facts`. -/
def collectOp (state : Collector) (instruction : Nat) : CoreOp → Checked Collector
  | .defClass rawId _ => do
      requireNonEmpty "DEF_C" .class rawId none instruction
      let definitionKinds ←
        registerDefinitionKind state.definitionKinds "DEF_C" rawId .class instruction
      let classes ←
        insertDefinition state.index.classes ⟨rawId⟩ "DEF_C" .class rawId none instruction
      .ok { state with index := { state.index with classes }, definitionKinds }
  | .defMethod rawOwner rawId _ => do
      requireNonEmpty "DEF_M owner" .class rawOwner none instruction
      requireNonEmpty "DEF_M" .method rawId (some rawOwner) instruction
      let definitionKinds ←
        registerDefinitionKind state.definitionKinds "DEF_M identity" rawId .method instruction
      let methods ← insertDefinition state.index.methods ⟨rawId⟩ "DEF_M" .method rawId
        (some rawOwner) instruction
      let methodOwners := state.index.methodOwners.insert ⟨rawId⟩ ⟨rawOwner⟩
      .ok { state with index := { state.index with methods, methodOwners }, definitionKinds }
  | .defField rawOwner rawId _ => do
      requireNonEmpty "DEF_F owner" .class rawOwner none instruction
      requireNonEmpty "DEF_F" .field rawId (some rawOwner) instruction
      let definitionKinds ←
        registerDefinitionKind state.definitionKinds "DEF_F identity" rawId .field instruction
      let fields ← insertDefinition state.index.fields ⟨rawId⟩ "DEF_F" .field rawId
        (some rawOwner) instruction
      .ok { state with index := { state.index with fields }, definitionKinds }
  | .defInterface rawId _ => do
      requireNonEmpty "DEF_I" .interface rawId none instruction
      let definitionKinds ←
        registerDefinitionKind state.definitionKinds "DEF_I" rawId .interface instruction
      let interfaces ← insertDefinition state.index.interfaces ⟨rawId⟩ "DEF_I" .interface rawId
        none instruction
      .ok { state with index := { state.index with interfaces }, definitionKinds }
  | .defInterfaceMethod rawOwner rawId _ => do
      requireNonEmpty "DEF_IM owner" .interface rawOwner none instruction
      requireNonEmpty "DEF_IM" .method rawId (some rawOwner) instruction
      let definitionKinds ←
        registerDefinitionKind state.definitionKinds "DEF_IM identity" rawId .method instruction
      let methods ← insertDefinition state.index.methods ⟨rawId⟩ "DEF_IM" .method rawId
        (some rawOwner) instruction
      let interfaceMethodOwners := state.index.interfaceMethodOwners.insert ⟨rawId⟩ ⟨rawOwner⟩
      .ok { state with
        index := { state.index with methods, interfaceMethodOwners }, definitionKinds }
  | .defInterfaceField rawOwner rawId _ => do
      requireNonEmpty "DEF_IF owner" .interface rawOwner none instruction
      requireNonEmpty "DEF_IF" .field rawId (some rawOwner) instruction
      let definitionKinds ←
        registerDefinitionKind state.definitionKinds "DEF_IF identity" rawId .field instruction
      let fields ← insertDefinition state.index.fields ⟨rawId⟩ "DEF_IF" .field rawId
        (some rawOwner) instruction
      let interfaceFieldOwners := state.index.interfaceFieldOwners.insert ⟨rawId⟩ ⟨rawOwner⟩
      .ok { state with
        index := { state.index with fields, interfaceFieldOwners }, definitionKinds }
  | .param rawMethod rawParameter _ _ => do
      requireNonEmpty "SIG target" .method rawMethod none instruction
      requireNonEmpty "SIG" .parameter rawParameter (some rawMethod) instruction
      let parameters ← insertDefinition state.facts.parameters (⟨rawMethod⟩, ⟨rawParameter⟩)
        "SIG" .parameter rawParameter (some rawMethod) instruction
      .ok { state with facts := { state.facts with parameters } }
  | .ret rawMethod _ => do
      requireNonEmpty "RET" .method rawMethod none instruction
      match state.facts.returns.lookup ⟨rawMethod⟩ with
      | some first => .error (.duplicateReturn rawMethod first instruction)
      | none =>
          let returns := state.facts.returns.insert ⟨rawMethod⟩ instruction
          .ok { state with facts := { state.facts with returns } }
  | .fieldType rawField _ => do
      requireNonEmpty "FIELD_T" .field rawField none instruction
      match state.facts.fieldTypes.lookup ⟨rawField⟩ with
      | some first => .error (.duplicateFieldType rawField first instruction)
      | none =>
          let fieldTypes := state.facts.fieldTypes.insert ⟨rawField⟩ instruction
          .ok { state with facts := { state.facts with fieldTypes } }
  | .classExtends rawClass _ => do
      let classBases ← insertSingular state.facts.classBases ⟨rawClass⟩ "EXT" .class rawClass
        instruction
      .ok { state with facts := { state.facts with classBases } }
  | .baseTypeRef rawClass _ => do
      let classBases ← insertSingular state.facts.classBases ⟨rawClass⟩ "BASE_REF" .class
        rawClass instruction
      .ok { state with facts := { state.facts with classBases } }
  | .importModule aliasName _ _ => do
      requireNonEmpty "IMP" .importAlias aliasName none instruction
      let importAliases ← insertDefinition state.facts.importAliases aliasName "IMP"
        .importAlias aliasName none instruction
      .ok { state with facts := { state.facts with importAliases } }
  | .typeAlias aliasName _ => do
      requireNonEmpty "TYPE" .typeAlias aliasName none instruction
      .ok state
  | .body rawMethod _ _ _ => do
      let bodies ← insertSingular state.facts.bodies ⟨rawMethod⟩ "BODY" .method rawMethod
        instruction
      .ok { state with facts := { state.facts with bodies } }
  | _ => .ok state

/-- The collecting loop, from position `i` on. -/
def collectFrom : Nat → List CoreOp → Collector → Checked Collector
  | _, [], state => .ok state
  | i, op :: ops, state => do
      let state ← collectOp state i op
      collectFrom (i + 1) ops state

def conflictingKind (rawId : String) (expected : IdentityKind) (index : IdentityIndex) :
    Option IdentityKind :=
  if expected ≠ .class ∧ ⟨rawId⟩ ∈ index.classes then some .class
  else if expected ≠ .method ∧ ⟨rawId⟩ ∈ index.methods then some .method
  else if expected ≠ .field ∧ ⟨rawId⟩ ∈ index.fields then some .field
  else if expected ≠ .interface ∧ ⟨rawId⟩ ∈ index.interfaces then some .interface
  else none

/-- Whether the index holds an identity of the expected kind. -/
def resolves (index : IdentityIndex) (rawId : String) : IdentityKind → Bool
  | .class => decide (⟨rawId⟩ ∈ index.classes)
  | .method => decide (⟨rawId⟩ ∈ index.methods)
  | .field => decide (⟨rawId⟩ ∈ index.fields)
  | .interface => decide (⟨rawId⟩ ∈ index.interfaces)
  | .parameter | .importAlias | .typeAlias => false

def requireTarget (operation rawId : String) (expected : IdentityKind) (instruction : Nat)
    (index : IdentityIndex) : Checked Unit := do
  requireNonEmpty operation expected rawId none instruction
  if resolves index rawId expected then .ok ()
  else
    match conflictingKind rawId expected index with
    | some actual => .error (.kindMismatch operation rawId expected actual instruction)
    | none => .error (.unresolvedIdentity operation expected rawId instruction)

def isTypedFlag (value : String) : Bool :=
  (DeclarationModifier.fromSerialized value).isSome ||
    (ControlSummary.fromSerialized value).isSome || PatternFact.isSerializedKind value

def rejectTypedFlagPayload (operation : String) (values : List String) (instruction : Nat) :
    Checked Unit :=
  match values.find? isTypedFlag with
  | some value => .error (.invalidOperation operation instruction
      ("typed value '" ++ value ++ "' must use its semantic-family operation"))
  | none => .ok ()

def validateBodySpan (start stop : Option UInt64) (instruction : Nat) : Checked Unit :=
  match start, stop with
  | none, none => .ok ()
  | some s, some e =>
      if s ≤ e then .ok ()
      else .error (.invalidOperation "BODY" instruction "body span start exceeds end")
  | _, _ => .error (.invalidOperation "BODY" instruction
      "body span start and end must both be present or both be absent")

def requireNonEmptyPayload {α : Type} (operation : String) (values : List α)
    (instruction : Nat) : Checked Unit :=
  match values with
  | [] => .error (.invalidOperation operation instruction "payload must not be empty")
  | _ :: _ => .ok ()

def requireVocabulary (operation field value : String) (accepted : List String)
    (instruction : Nat) : Checked Unit :=
  if value ∈ accepted then .ok ()
  else .error (.invalidOperation operation instruction
    ("unknown " ++ field ++ " '" ++ value ++ "'"))

def dataflowDirections : List String := ["reads", "writes"]

def controlKinds : List String := ["if", "loop", "match", "try", "await", "return"]

end Contracts

/-- Typed target derived from the pattern schema. -/
inductive PatternTarget
  | class (classId : ClassId)
  | method (classId : ClassId) (methodId : MethodId)
  deriving DecidableEq

def isMethodPattern (name : String) : Bool :=
  ["CTOR", "EMPTY_CTOR", "OBSERVABLE", "PROMISE", "GETTER", "SETTER", "OVERRIDE"].contains name

def validArity (name : String) (args : List String) : Bool :=
  match name with
  | "CTOR" => args.length ≥ 2
  | "EMPTY_CTOR" | "OVERRIDE" => args.length = 2
  | "OBSERVABLE" | "PROMISE" | "GETTER" | "SETTER" => args.length = 3
  | _ => args ≠ []

/-- Parse the pattern schemas; the operands are read only after the arity check. -/
def patternTarget (name : String) (args : List String) (instruction : Nat) :
    Checked PatternTarget :=
  if name = "" then
    .error (.invalidOperation "PAT" instruction "pattern name must not be empty")
  else if validArity name args = false then
    .error (.invalidOperation "PAT" instruction
      ("pattern '" ++ name ++ "' has invalid operand count " ++ toString args.length))
  else
    let classId : ClassId := ⟨(args[0]?).getD ""⟩
    if isMethodPattern name then .ok (.method classId ⟨(args[1]?).getD ""⟩)
    else .ok (.class classId)

namespace Contracts

def validatePattern (name : String) (args : List String) (instruction : Nat)
    (index : IdentityIndex) : Checked Unit := do
  match ← patternTarget name args instruction with
  | .class classId => requireTarget "PAT class" classId.raw .class instruction index
  | .method classId methodId => do
      requireTarget "PAT class" classId.raw .class instruction index
      requireTarget "PAT method" methodId.raw .method instruction index
      if index.methodOwners.lookup methodId = some classId then .ok ()
      else .error (.ownerMismatch "PAT" methodId.raw classId.raw instruction)

/-- One instruction of the reference pass. -/
def checkReferences (index : IdentityIndex) (instruction : Nat) : CoreOp → Checked Unit
  | .defClass _ _ | .defInterface _ _ => .ok ()
  | .defMethod rawOwner _ _ => requireTarget "DEF_M owner" rawOwner .class instruction index
  | .defField rawOwner _ _ => requireTarget "DEF_F owner" rawOwner .class instruction index
  | .defInterfaceMethod rawOwner _ _ =>
      requireTarget "DEF_IM owner" rawOwner .interface instruction index
  | .defInterfaceField rawOwner _ _ =>
      requireTarget "DEF_IF owner" rawOwner .interface instruction index
  | .param rawMethod _ _ _ => requireTarget "SIG" rawMethod .method instruction index
  | .ret rawMethod _ => requireTarget "RET" rawMethod .method instruction index
  | .fieldType rawField _ => requireTarget "FIELD_T" rawField .field instruction index
  | .methodModifiers rawMethod modifiers => do
      requireTarget "MOD_M" rawMethod .method instruction index
      requireNonEmptyPayload "MOD_M" modifiers instruction
  | .classModifiers rawClass modifiers => do
      requireTarget "MOD_C" rawClass .class instruction index
      requireNonEmptyPayload "MOD_C" modifiers instruction
  | .interfaceModifiers rawInterface modifiers => do
      requireTarget "MOD_I" rawInterface .interface instruction index
      requireNonEmptyPayload "MOD_I" modifiers instruction
  | .controlSummary rawMethod summaries => do
      requireTarget "CTRL_SUM" rawMethod .method instruction index
      requireNonEmptyPayload "CTRL_SUM" summaries instruction
  | .patternFacts rawMethod facts => do
      requireTarget "PAT_FACT" rawMethod .method instruction index
      requireNonEmptyPayload "PAT_FACT" facts instruction
  | .flags rawMethod flags => do
      requireTarget "FLAGS" rawMethod .method instruction index
      requireNonEmptyPayload "FLAGS" flags instruction
      rejectTypedFlagPayload "FLAGS" flags instruction
  | .classFlags rawClass flags => do
      requireTarget "FLAGS_C" rawClass .class instruction index
      requireNonEmptyPayload "FLAGS_C" flags instruction
      rejectTypedFlagPayload "FLAGS_C" flags instruction
  | .classExtends rawClass _ => requireTarget "EXT" rawClass .class instruction index
  | .baseTypeRef rawClass _ => requireTarget "BASE_REF" rawClass .class instruction index
  | .interfaceExtends rawInterface _ =>
      requireTarget "EXT_I" rawInterface .interface instruction index
  | .implements rawClass _ => requireTarget "IMPL" rawClass .class instruction index
  -- The only payload family whose values are not required to be non-empty.
  | .injects rawClass _ => requireTarget "INJECTS" rawClass .class instruction index
  | .importModule _ _ _ | .typeAlias _ _ => .ok ()
  | .pattern name args => validatePattern name args instruction index
  | .body rawMethod _ start stop => do
      requireTarget "BODY" rawMethod .method instruction index
      validateBodySpan start stop instruction
  | .dataFlow rawMethod direction _ => do
      requireTarget "DATAFLOW" rawMethod .method instruction index
      requireVocabulary "DATAFLOW" "direction" direction dataflowDirections instruction
  | .controlFlow rawMethod kind _ => do
      requireTarget "CTRL" rawMethod .method instruction index
      requireVocabulary "CTRL" "kind" kind controlKinds instruction
  | .sideEffect rawMethod _ => requireTarget "EFFECT" rawMethod .method instruction index
  | .executionContext rawMethod _ => requireTarget "CTX" rawMethod .method instruction index
  | .call rawCaller _ _ _ => requireTarget "CALL" rawCaller .method instruction index

/-- The reference loop, from position `i` on. -/
def checkFrom (index : IdentityIndex) : Nat → List CoreOp → Checked Unit
  | _, [] => .ok ()
  | i, op :: ops => do
      checkReferences index i op
      checkFrom index (i + 1) ops

end Contracts

/-- Validate every identity, ownership, cardinality and payload contract of a stream. -/
def validateIdentityGraph (ir : CompiledIR) : Checked IdentityIndex := do
  let collected ← Contracts.collectFrom 0 ir.instructions Contracts.Collector.empty
  Contracts.checkFrom collected.index 0 ir.instructions
  .ok collected.index

end CleanCtx
