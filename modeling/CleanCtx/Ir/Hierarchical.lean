import CleanCtx.Library.Fallible
import CleanCtx.Ir.Identity

/-!
The hierarchical form of a stream (`ir/hierarchical/nodes.rs`, `encode.rs`,
`encode/support.rs`): a first pass places the declarations, a second one
attaches every other fact to the node its identity names.
-/
namespace CleanCtx

structure PatternEntry where
  name : String
  args : List String
  deriving DecidableEq

@[ext] structure FieldNode where
  id : String
  name : String
  fieldType : Option String
  deriving DecidableEq

@[ext] structure MethodNode where
  id : String
  name : String
  params : List (List String)
  returnType : Option String
  modifiers : List (List DeclarationModifier)
  controlSummaries : List (List ControlSummary)
  patternFacts : List (List PatternFact)
  flags : List (List String)
  patterns : List PatternEntry
  body : Option String
  bodyStart : Option UInt64
  bodyEnd : Option UInt64
  controlFlow : List (List String)
  dataFlow : List (List String)
  sideEffect : List SideEffectKind
  executionContext : List ExecutionContextKind
  deriving DecidableEq

/-- `parent` is the field `extends`, which is a keyword here. -/
@[ext] structure ClassNode where
  id : String
  name : String
  methods : List MethodNode
  fields : List FieldNode
  modifiers : List (List DeclarationModifier)
  classFlags : List (List String)
  parent : Option String
  baseTypeRefs : List String
  implements : List String
  injects : List (List String)
  patterns : List PatternEntry
  synthetic : Bool
  deriving DecidableEq

@[ext] structure InterfaceNode where
  id : String
  name : String
  methods : List MethodNode
  fields : List FieldNode
  modifiers : List (List DeclarationModifier)
  parents : List String
  deriving DecidableEq

structure HierarchicalCall where
  caller : String
  callee : String
  explicitArgCount : UInt64
  hasSpread : Bool
  deriving DecidableEq

structure HierarchicalIR where
  classes : List ClassNode
  interfaces : List InterfaceNode
  imports : List (List String)
  typeAliases : List (List String)
  calls : List HierarchicalCall
  deriving DecidableEq

namespace Hierarchical

inductive MethodLocation
  | class (owner member : Nat)
  | interface (owner member : Nat)
  deriving DecidableEq

inductive FieldLocation
  | class (owner member : Nat)
  | interface (owner member : Nat)
  deriving DecidableEq

def newClass (id name : String) : ClassNode where
  id := id
  name := name
  methods := []
  fields := []
  modifiers := []
  classFlags := []
  parent := none
  baseTypeRefs := []
  implements := []
  injects := []
  patterns := []
  synthetic := false

def newInterface (id name : String) : InterfaceNode where
  id := id
  name := name
  methods := []
  fields := []
  modifiers := []
  parents := []

def newMethod (methodId : MethodId) (name : String) : MethodNode where
  id := methodId.raw
  name := name
  params := []
  returnType := none
  modifiers := []
  controlSummaries := []
  patternFacts := []
  flags := []
  patterns := []
  body := none
  bodyStart := none
  bodyEnd := none
  controlFlow := []
  dataFlow := []
  sideEffect := []
  executionContext := []

def newField (fieldId : FieldId) (name : String) : FieldNode where
  id := fieldId.raw
  name := name
  fieldType := none

/-- The variables of the first pass. -/
structure Placement where
  classes : List ClassNode
  interfaces : List InterfaceNode
  imports : List (List String)
  typeAliases : List (List String)
  calls : List HierarchicalCall
  classLocations : HashMap ClassId Nat
  methodLocations : HashMap MethodId MethodLocation
  fieldLocations : HashMap FieldId FieldLocation
  interfaceLocations : HashMap InterfaceId Nat
  pendingMethods : HashMap ClassId (List (MethodId × String))
  pendingFields : HashMap ClassId (List (FieldId × String))
  pendingInterfaceMethods : HashMap InterfaceId (List (MethodId × String))
  pendingInterfaceFields : HashMap InterfaceId (List (FieldId × String))

def Placement.empty : Placement where
  classes := []
  interfaces := []
  imports := []
  typeAliases := []
  calls := []
  classLocations := ∅
  methodLocations := ∅
  fieldLocations := ∅
  interfaceLocations := ∅
  pendingMethods := ∅
  pendingFields := ∅
  pendingInterfaceMethods := ∅
  pendingInterfaceFields := ∅

/-- A family of members: where a node keeps them, how one is built and how its place is
recorded. Methods and fields of classes and of interfaces are the four families. -/
structure MemberKind (ν μ κ lo : Type) where
  members : ν → List μ
  withMembers : ν → List μ → ν
  build : κ → String → μ
  locate : Nat → Nat → lo
  members_withMembers : ∀ node l, members (withMembers node l) = l := by intros; rfl
  withMembers_withMembers : ∀ node l l',
    withMembers (withMembers node l) l' = withMembers node l' := by intros; rfl
  withMembers_members : ∀ node, withMembers node (members node) = node := by intros; rfl
  locate_inj : ∀ {i j i' j'}, locate i j = locate i' j' → i = i' ∧ j = j' := by
    rintro _ _ _ _ ⟨⟩; exact ⟨rfl, rfl⟩

namespace MemberKind

variable {ν μ κ lo : Type} [DecidableEq κ]

/-- Push a member into the node at an index and record where it went. -/
def place (kind : MemberKind ν μ κ lo) (idx : Nat) (state : List ν × HashMap κ lo)
    (decl : κ × String) : Rust (List ν × HashMap κ lo) := do
  let node ← Vec.index state.1 idx
  let members := kind.members node ++ [kind.build decl.1 decl.2]
  let nodes ← Vec.set state.1 idx (kind.withMembers node members)
  .ok (nodes, state.2.insert decl.1 (kind.locate idx (members.length - 1)))

/-- Update the member at an index of the node at an index. -/
def update (kind : MemberKind ν μ κ lo) (nodes : List ν) (owner member : Nat) (f : μ → μ) :
    Rust (List ν) :=
  Vec.update nodes owner fun node => do
    let members ← Vec.update (kind.members node) member fun m => .ok (f m)
    .ok (kind.withMembers node members)

end MemberKind

def classMethods : MemberKind ClassNode MethodNode MethodId MethodLocation where
  members node := node.methods
  withMembers node methods := { node with methods }
  build := newMethod
  locate := .class

def classFields : MemberKind ClassNode FieldNode FieldId FieldLocation where
  members node := node.fields
  withMembers node fields := { node with fields }
  build := newField
  locate := .class

def interfaceMethods : MemberKind InterfaceNode MethodNode MethodId MethodLocation where
  members node := node.methods
  withMembers node methods := { node with methods }
  build := newMethod
  locate := .interface

def interfaceFields : MemberKind InterfaceNode FieldNode FieldId FieldLocation where
  members node := node.fields
  withMembers node fields := { node with fields }
  build := newField
  locate := .interface

/-- `entry(owner).or_default().push(decl)` -/
def pushPending {κ δ : Type} [DecidableEq κ] (pending : HashMap κ (List δ)) (owner : κ)
    (decl : δ) : HashMap κ (List δ) :=
  pending.insert owner ((pending.lookup owner).getD [] ++ [decl])

def findClassById (classes : List ClassNode) (id : String) : Option Nat :=
  classes.findIdx? (·.id = id)

/-- One instruction of the first pass. -/
def placeOp (state : Placement) : CoreOp → Rust Placement
  | .defClass id name => do
      let classId : ClassId := ⟨id⟩
      let classIdx := state.classes.length
      let (classes, methodLocations) ← ((state.pendingMethods.lookup classId).getD []).foldlM
        (classMethods.place classIdx) (state.classes ++ [newClass id name], state.methodLocations)
      let (classes, fieldLocations) ← ((state.pendingFields.lookup classId).getD []).foldlM
        (classFields.place classIdx) (classes, state.fieldLocations)
      .ok { state with
        classes, methodLocations, fieldLocations
        classLocations := state.classLocations.insert classId classIdx
        pendingMethods := state.pendingMethods.erase classId
        pendingFields := state.pendingFields.erase classId }
  | .defMethod cid mid name =>
      match findClassById state.classes cid with
      | some classIdx => do
          let (classes, methodLocations) ← classMethods.place classIdx
            (state.classes, state.methodLocations) (⟨mid⟩, name)
          .ok { state with classes, methodLocations }
      | none => .ok { state with
          pendingMethods := pushPending state.pendingMethods ⟨cid⟩ (⟨mid⟩, name) }
  | .defField cid fid name =>
      match findClassById state.classes cid with
      | some classIdx => do
          let (classes, fieldLocations) ← classFields.place classIdx
            (state.classes, state.fieldLocations) (⟨fid⟩, name)
          .ok { state with classes, fieldLocations }
      | none => .ok { state with
          pendingFields := pushPending state.pendingFields ⟨cid⟩ (⟨fid⟩, name) }
  | .defInterface id name => do
      let interfaceId : InterfaceId := ⟨id⟩
      let interfaceIdx := state.interfaces.length
      let (interfaces, methodLocations) ←
        ((state.pendingInterfaceMethods.lookup interfaceId).getD []).foldlM
          (interfaceMethods.place interfaceIdx)
          (state.interfaces ++ [newInterface id name], state.methodLocations)
      let (interfaces, fieldLocations) ←
        ((state.pendingInterfaceFields.lookup interfaceId).getD []).foldlM
          (interfaceFields.place interfaceIdx) (interfaces, state.fieldLocations)
      .ok { state with
        interfaces, methodLocations, fieldLocations
        interfaceLocations := state.interfaceLocations.insert interfaceId interfaceIdx
        pendingInterfaceMethods := state.pendingInterfaceMethods.erase interfaceId
        pendingInterfaceFields := state.pendingInterfaceFields.erase interfaceId }
  | .defInterfaceMethod iid mid name =>
      match state.interfaceLocations.lookup ⟨iid⟩ with
      | some interfaceIdx => do
          let (interfaces, methodLocations) ← interfaceMethods.place interfaceIdx
            (state.interfaces, state.methodLocations) (⟨mid⟩, name)
          .ok { state with interfaces, methodLocations }
      | none => .ok { state with
          pendingInterfaceMethods :=
            pushPending state.pendingInterfaceMethods ⟨iid⟩ (⟨mid⟩, name) }
  | .defInterfaceField iid fid name =>
      match state.interfaceLocations.lookup ⟨iid⟩ with
      | some interfaceIdx => do
          let (interfaces, fieldLocations) ← interfaceFields.place interfaceIdx
            (state.interfaces, state.fieldLocations) (⟨fid⟩, name)
          .ok { state with interfaces, fieldLocations }
      | none => .ok { state with
          pendingInterfaceFields :=
            pushPending state.pendingInterfaceFields ⟨iid⟩ (⟨fid⟩, name) }
  | .importModule aliasName moduleName named =>
      .ok { state with imports := state.imports ++ [[aliasName, moduleName, named]] }
  | .typeAlias aliasName original =>
      .ok { state with typeAliases := state.typeAliases ++ [[aliasName, original]] }
  | .call caller callee argc hasSpread => .ok { state with
      calls := state.calls ++ [{ caller, callee, explicitArgCount := argc, hasSpread }] }
  | _ => .ok state

/-- A `debug_assert!`, as a debug build runs it. -/
def debugAssert (message : String) (condition : Bool) : Rust Unit :=
  if condition then .ok () else .error (.expect message)

def assertPlaced (state : Placement) : Rust Unit := do
  debugAssert "pending_methods.is_empty()" (decide (state.pendingMethods = ∅))
  debugAssert "pending_fields.is_empty()" (decide (state.pendingFields = ∅))
  debugAssert "pending_interface_methods.is_empty()" (decide (state.pendingInterfaceMethods = ∅))
  debugAssert "pending_interface_fields.is_empty()" (decide (state.pendingInterfaceFields = ∅))

/-! The second pass reads the locations and updates the nodes in place. -/

abbrev Attach := Fallible IdentityError

def location {κ ν : Type} [DecidableEq κ] (locations : HashMap κ ν) (key : κ)
    (operation : String) (expected : IdentityKind) (id : String) (instruction : Nat) : Attach ν :=
  match locations.lookup key with
  | some found => pure found
  | none => throw (.unresolvedIdentity operation expected id instruction)

def classLocation (state : Placement) (rawClass operation : String) (instruction : Nat) :
    Attach Nat :=
  location state.classLocations ⟨rawClass⟩ operation .class rawClass instruction

def interfaceLocation (state : Placement) (raw operation : String) (instruction : Nat) :
    Attach Nat :=
  location state.interfaceLocations ⟨raw⟩ operation .interface raw instruction

def methodLocation (state : Placement) (rawMethod operation : String) (instruction : Nat) :
    Attach MethodLocation :=
  location state.methodLocations ⟨rawMethod⟩ operation .method rawMethod instruction

/-- `method_mut`, then an update of the method it returns. -/
def methodMut (state : Placement) (raw operation : String) (instruction : Nat)
    (f : MethodNode → MethodNode) : Attach Placement := do
  match ← methodLocation state raw operation instruction with
  | .class owner member => do
      let classes ← Fallible.ofRust (classMethods.update state.classes owner member f)
      pure { state with classes }
  | .interface owner member => do
      let interfaces ← Fallible.ofRust (interfaceMethods.update state.interfaces owner member f)
      pure { state with interfaces }

/-- `field_mut`, then an update of the field it returns. -/
def fieldMut (state : Placement) (raw operation : String) (instruction : Nat)
    (f : FieldNode → FieldNode) : Attach Placement := do
  match ← location state.fieldLocations ⟨raw⟩ operation .field raw instruction with
  | .class owner member => do
      let classes ← Fallible.ofRust (classFields.update state.classes owner member f)
      pure { state with classes }
  | .interface owner member => do
      let interfaces ← Fallible.ofRust (interfaceFields.update state.interfaces owner member f)
      pure { state with interfaces }

def classMut (state : Placement) (raw operation : String) (instruction : Nat)
    (f : ClassNode → ClassNode) : Attach Placement := do
  let classIdx ← classLocation state raw operation instruction
  let classes ← Fallible.ofRust (Vec.update state.classes classIdx fun node => .ok (f node))
  pure { state with classes }

def interfaceMut (state : Placement) (raw operation : String) (instruction : Nat)
    (f : InterfaceNode → InterfaceNode) : Attach Placement := do
  let interfaceIdx ← interfaceLocation state raw operation instruction
  let interfaces ←
    Fallible.ofRust (Vec.update state.interfaces interfaceIdx fun node => .ok (f node))
  pure { state with interfaces }

def attachPattern (state : Placement) (instruction : Nat) (name : String) (args : List String) :
    Attach Placement := do
  let entry : PatternEntry := { name, args }
  match ← Fallible.ofExcept (patternTarget name args instruction) with
  | .class classId =>
      classMut state classId.raw "PAT class" instruction
        fun node => { node with patterns := node.patterns ++ [entry] }
  | .method classId methodId => do
      let expectedClass ← classLocation state classId.raw "PAT class" instruction
      match ← methodLocation state methodId.raw "PAT method" instruction with
      | .interface _ _ => throw (.ownerMismatch "PAT" methodId.raw classId.raw instruction)
      | .class classIdx methodIdx =>
          if classIdx ≠ expectedClass then
            throw (.ownerMismatch "PAT" methodId.raw classId.raw instruction)
          else do
            let classes ← Fallible.ofRust (classMethods.update state.classes classIdx methodIdx
              fun m => { m with patterns := m.patterns ++ [entry] })
            pure { state with classes }

/-- One instruction of the second pass. -/
def attachOp (state : Placement) (instruction : Nat) : CoreOp → Attach Placement
  | .param raw parameterId ty name => methodMut state raw "SIG" instruction
      fun m => { m with params := m.params ++ [[parameterId, ty, name]] }
  | .ret raw ty => methodMut state raw "RET" instruction
      fun m => { m with returnType := some ty }
  | .fieldType raw ty => fieldMut state raw "FIELD_T" instruction
      fun field => { field with fieldType := some ty }
  | .methodModifiers raw modifiers => methodMut state raw "MOD_M" instruction
      fun m => { m with modifiers := m.modifiers ++ [modifiers] }
  | .classModifiers raw modifiers => classMut state raw "MOD_C" instruction
      fun node => { node with modifiers := node.modifiers ++ [modifiers] }
  | .interfaceModifiers raw modifiers => interfaceMut state raw "MOD_I" instruction
      fun node => { node with modifiers := node.modifiers ++ [modifiers] }
  | .controlSummary raw summaries => methodMut state raw "CTRL_SUM" instruction
      fun m => { m with controlSummaries := m.controlSummaries ++ [summaries] }
  | .patternFacts raw facts => methodMut state raw "PAT_FACT" instruction
      fun m => { m with patternFacts := m.patternFacts ++ [facts] }
  | .flags raw flags => methodMut state raw "FLAGS" instruction
      fun m => { m with flags := m.flags ++ [flags] }
  | .body raw text start stop => methodMut state raw "BODY" instruction
      fun m => { m with body := some text, bodyStart := start, bodyEnd := stop }
  | .controlFlow raw kind target => methodMut state raw "CTRL" instruction
      fun m => { m with controlFlow := m.controlFlow ++ [[kind, target]] }
  | .dataFlow raw direction target => methodMut state raw "DATAFLOW" instruction
      fun m => { m with dataFlow := m.dataFlow ++ [[direction, target]] }
  | .sideEffect raw effect => methodMut state raw "EFFECT" instruction
      fun m => { m with sideEffect := m.sideEffect ++ [effect] }
  | .executionContext raw context => methodMut state raw "CTX" instruction
      fun m => { m with executionContext := m.executionContext ++ [context] }
  | .classFlags raw flags => classMut state raw "FLAGS_C" instruction
      fun node => { node with classFlags := node.classFlags ++ [flags] }
  | .classExtends raw parent => classMut state raw "EXT" instruction
      fun node => { node with parent := some parent }
  | .baseTypeRef raw writtenType => classMut state raw "BASE_REF" instruction
      fun node => { node with baseTypeRefs := node.baseTypeRefs ++ [writtenType] }
  | .interfaceExtends raw parent => interfaceMut state raw "EXT_I" instruction
      fun node => { node with parents := node.parents ++ [parent] }
  | .implements raw interfaceId => classMut state raw "IMPL" instruction
      fun node => { node with implements := node.implements ++ [interfaceId] }
  | .injects raw dependencies => classMut state raw "INJECTS" instruction
      fun node => { node with injects := node.injects ++ [dependencies] }
  | .pattern name args => attachPattern state instruction name args
  | _ => pure state

/-- The second loop, from position `i` on. -/
def attachFrom : Nat → List CoreOp → Placement → Attach Placement
  | _, [], state => pure state
  | i, op :: ops, state => do
      let state ← attachOp state i op
      attachFrom (i + 1) ops state

end Hierarchical

open Hierarchical in
/-- Checked projection from the canonical stream to the hierarchical form. -/
def tryIrToHierarchical (ir : CompiledIR) : Fallible IdentityError HierarchicalIR := do
  let _ ← Fallible.ofExcept (validateIdentityGraph ir)
  let placed ← Fallible.ofRust (ir.instructions.foldlM placeOp Placement.empty)
  Fallible.ofRust (assertPlaced placed)
  let state ← attachFrom 0 ir.instructions placed
  pure
    { classes := state.classes
      interfaces := state.interfaces
      imports := state.imports
      typeAliases := state.typeAliases
      calls := state.calls }

end CleanCtx
