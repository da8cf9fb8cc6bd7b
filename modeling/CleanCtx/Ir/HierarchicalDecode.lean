import CleanCtx.Ir.Hierarchical

/-!
Flattening the hierarchical form (`ir/hierarchical/decode.rs`). The members of
classes and of interfaces have emitters of their own, as in the source.
-/
namespace CleanCtx
namespace Hierarchical

def emitParam (methodId : String) : List String → List CoreOp
  | parameterId :: ty :: name :: _ => [.param methodId parameterId ty name]
  | _ => []

def emitControl (methodId : String) : List String → List CoreOp
  | kind :: target :: _ => [.controlFlow methodId kind target]
  | _ => []

def emitFlow (methodId : String) : List String → List CoreOp
  | direction :: target :: _ => [.dataFlow methodId direction target]
  | _ => []

def emitBody (method : MethodNode) : List CoreOp :=
  method.body.toList.map fun body => .body method.id body method.bodyStart method.bodyEnd

def emitPattern (pattern : PatternEntry) : CoreOp := .pattern pattern.name pattern.args

/-- `emit_method_facts`, used for the members of interfaces. -/
def emitMethodFacts (method : MethodNode) : List CoreOp :=
  method.params.flatMap (emitParam method.id) ++
  method.returnType.toList.map (.ret method.id) ++
  method.modifiers.map (.methodModifiers method.id) ++
  method.controlSummaries.map (.controlSummary method.id) ++
  method.patternFacts.map (.patternFacts method.id) ++
  method.flags.map (.flags method.id) ++
  emitBody method ++
  method.controlFlow.flatMap (emitControl method.id) ++
  method.dataFlow.flatMap (emitFlow method.id) ++
  method.sideEffect.map (.sideEffect method.id) ++
  method.executionContext.map (.executionContext method.id) ++
  method.patterns.map emitPattern

/-- The facts of a class method, as the class loop emits them. -/
def emitClassMethodFacts (method : MethodNode) : List CoreOp :=
  method.params.flatMap (emitParam method.id) ++
  method.returnType.toList.map (.ret method.id) ++
  method.modifiers.map (.methodModifiers method.id) ++
  method.controlSummaries.map (.controlSummary method.id) ++
  method.patternFacts.map (.patternFacts method.id) ++
  method.flags.map (.flags method.id) ++
  emitBody method ++
  method.controlFlow.flatMap (emitControl method.id) ++
  method.dataFlow.flatMap (emitFlow method.id) ++
  method.sideEffect.map (.sideEffect method.id) ++
  method.executionContext.map (.executionContext method.id) ++
  method.patterns.map emitPattern

def emitFieldFacts (field : FieldNode) : List CoreOp :=
  field.fieldType.toList.map (.fieldType field.id)

def emitClassFacts (node : ClassNode) : List CoreOp :=
  node.modifiers.map (.classModifiers node.id) ++
  node.classFlags.map (.classFlags node.id) ++
  node.parent.toList.map (.classExtends node.id) ++
  node.baseTypeRefs.map (.baseTypeRef node.id) ++
  node.implements.map (.implements node.id) ++
  node.injects.map (.injects node.id)

def emitInterfaceFacts (node : InterfaceNode) : List CoreOp :=
  node.modifiers.map (.interfaceModifiers node.id) ++
  node.parents.map (.interfaceExtends node.id)

/-- A synthetic class stands for orphans: only its members are emitted. -/
def emitClass (node : ClassNode) : List CoreOp :=
  (if node.synthetic then [] else .defClass node.id node.name :: emitClassFacts node) ++
  node.fields.flatMap (fun field =>
    .defField node.id field.id field.name :: emitFieldFacts field) ++
  node.methods.flatMap (fun method =>
    .defMethod node.id method.id method.name :: emitClassMethodFacts method) ++
  (if node.synthetic then [] else node.patterns.map emitPattern)

def emitInterface (node : InterfaceNode) : List CoreOp :=
  .defInterface node.id node.name :: emitInterfaceFacts node ++
  node.fields.flatMap (fun field =>
    .defInterfaceField node.id field.id field.name :: emitFieldFacts field) ++
  node.methods.flatMap (fun method =>
    .defInterfaceMethod node.id method.id method.name :: emitMethodFacts method)

def emitImport : List String → List CoreOp
  | aliasName :: moduleName :: named :: _ => [.importModule aliasName moduleName named]
  | _ => []

def emitTypeAlias : List String → List CoreOp
  | aliasName :: original :: _ => [.typeAlias aliasName original]
  | _ => []

def emitCall (call : HierarchicalCall) : CoreOp :=
  .call call.caller call.callee call.explicitArgCount call.hasSpread

theorem emitClassMethodFacts_eq (method : MethodNode) :
    emitClassMethodFacts method = emitMethodFacts method := rfl

end Hierarchical

open Hierarchical in
def hierarchicalToIr (hir : HierarchicalIR) : List CoreOp :=
  hir.classes.flatMap emitClass ++ hir.interfaces.flatMap emitInterface ++
  hir.imports.flatMap emitImport ++ hir.typeAliases.flatMap emitTypeAlias ++
  hir.calls.map emitCall

end CleanCtx
