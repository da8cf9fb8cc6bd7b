import CleanCtx.Ir.Hierarchical
import CleanCtx.Ir.IdentityValidity

/-!
The projection as a function of the stream: the declarations give the shape of
the tree, and every list of a node is the sequence of the facts that name it.
Nothing in it depends on where a fact stands among the facts of other nodes.
-/
namespace CleanCtx
namespace Hierarchical

def named {α : Type} (target id : String) (a : α) : Option α := if target = id then some a else none

@[simp] theorem named_self {α : Type} (id : String) (a : α) : named id id a = some a := if_pos rfl

theorem named_of_ne {α : Type} {target id : String} (h : target ≠ id) (a : α) :
    named target id a = none := if_neg h

theorem named_eq_some {α : Type} {target id : String} {a b : α} :
    named target id a = some b ↔ target = id ∧ a = b := by
  unfold named
  split <;> simp_all

/-! The declarations of a stream, by owner. -/

def classDecl : CoreOp → Option (ClassId × String)
  | .defClass id name => some (⟨id⟩, name)
  | _ => none

def interfaceDecl : CoreOp → Option (InterfaceId × String)
  | .defInterface id name => some (⟨id⟩, name)
  | _ => none

def methodDecl (owner : ClassId) : CoreOp → Option (MethodId × String)
  | .defMethod c m name => named c owner.raw (⟨m⟩, name)
  | _ => none

def fieldDecl (owner : ClassId) : CoreOp → Option (FieldId × String)
  | .defField c f name => named c owner.raw (⟨f⟩, name)
  | _ => none

def interfaceMethodDecl (owner : InterfaceId) : CoreOp → Option (MethodId × String)
  | .defInterfaceMethod i m name => named i owner.raw (⟨m⟩, name)
  | _ => none

def interfaceFieldDecl (owner : InterfaceId) : CoreOp → Option (FieldId × String)
  | .defInterfaceField i f name => named i owner.raw (⟨f⟩, name)
  | _ => none

/-! The facts of one identity. -/

def paramFact (id : String) : CoreOp → Option (List String)
  | .param m p ty name => named m id [p, ty, name]
  | _ => none

def returnFact (id : String) : CoreOp → Option String
  | .ret m ty => named m id ty
  | _ => none

def modifiersFact (id : String) : CoreOp → Option (List DeclarationModifier)
  | .methodModifiers m modifiers => named m id modifiers
  | _ => none

def summaryFact (id : String) : CoreOp → Option (List ControlSummary)
  | .controlSummary m summaries => named m id summaries
  | _ => none

def patternFact (id : String) : CoreOp → Option (List PatternFact)
  | .patternFacts m facts => named m id facts
  | _ => none

def flagsFact (id : String) : CoreOp → Option (List String)
  | .flags m flags => named m id flags
  | _ => none

def methodPattern (id : String) : CoreOp → Option PatternEntry
  | .pattern name args =>
      match patternOperands name args with
      | .class _ => none
      | .method _ m => named m.raw id { name, args }
  | _ => none

def bodyFact (id : String) : CoreOp → Option (String × Option UInt64 × Option UInt64)
  | .body m text start stop => named m id (text, start, stop)
  | _ => none

def controlFact (id : String) : CoreOp → Option (List String)
  | .controlFlow m kind target => named m id [kind, target]
  | _ => none

def flowFact (id : String) : CoreOp → Option (List String)
  | .dataFlow m direction target => named m id [direction, target]
  | _ => none

def effectFact (id : String) : CoreOp → Option SideEffectKind
  | .sideEffect m effect => named m id effect
  | _ => none

def contextFact (id : String) : CoreOp → Option ExecutionContextKind
  | .executionContext m context => named m id context
  | _ => none

def fieldTypeFact (id : String) : CoreOp → Option String
  | .fieldType f ty => named f id ty
  | _ => none

def classModifiersFact (id : String) : CoreOp → Option (List DeclarationModifier)
  | .classModifiers c modifiers => named c id modifiers
  | _ => none

def classFlagsFact (id : String) : CoreOp → Option (List String)
  | .classFlags c flags => named c id flags
  | _ => none

def extendsFact (id : String) : CoreOp → Option String
  | .classExtends c parent => named c id parent
  | _ => none

def baseTypeFact (id : String) : CoreOp → Option String
  | .baseTypeRef c writtenType => named c id writtenType
  | _ => none

def implementsFact (id : String) : CoreOp → Option String
  | .implements c interfaceId => named c id interfaceId
  | _ => none

def injectsFact (id : String) : CoreOp → Option (List String)
  | .injects c deps => named c id deps
  | _ => none

def classPattern (id : String) : CoreOp → Option PatternEntry
  | .pattern name args =>
      match patternOperands name args with
      | .class c => named c.raw id { name, args }
      | .method _ _ => none
  | _ => none

def interfaceModifiersFact (id : String) : CoreOp → Option (List DeclarationModifier)
  | .interfaceModifiers i modifiers => named i id modifiers
  | _ => none

def interfaceExtendsFact (id : String) : CoreOp → Option String
  | .interfaceExtends i parent => named i id parent
  | _ => none

def importRow : CoreOp → Option (List String)
  | .importModule aliasName moduleName named => some [aliasName, moduleName, named]
  | _ => none

def typeAliasRow : CoreOp → Option (List String)
  | .typeAlias aliasName original => some [aliasName, original]
  | _ => none

def callRow : CoreOp → Option HierarchicalCall
  | .call caller callee argc hasSpread =>
      some { caller, callee, explicitArgCount := argc, hasSpread }
  | _ => none

/-- The method of a declaration, with the facts that name it. -/
def methodNode (facts : List CoreOp) (decl : MethodId × String) : MethodNode where
  id := decl.1.raw
  name := decl.2
  params := facts.filterMap (paramFact decl.1.raw)
  returnType := (facts.filterMap (returnFact decl.1.raw)).getLast?
  modifiers := facts.filterMap (modifiersFact decl.1.raw)
  controlSummaries := facts.filterMap (summaryFact decl.1.raw)
  patternFacts := facts.filterMap (patternFact decl.1.raw)
  flags := facts.filterMap (flagsFact decl.1.raw)
  patterns := facts.filterMap (methodPattern decl.1.raw)
  body := (facts.filterMap (bodyFact decl.1.raw)).getLast?.map (·.1)
  bodyStart := (facts.filterMap (bodyFact decl.1.raw)).getLast?.bind (·.2.1)
  bodyEnd := (facts.filterMap (bodyFact decl.1.raw)).getLast?.bind (·.2.2)
  controlFlow := facts.filterMap (controlFact decl.1.raw)
  dataFlow := facts.filterMap (flowFact decl.1.raw)
  sideEffect := facts.filterMap (effectFact decl.1.raw)
  executionContext := facts.filterMap (contextFact decl.1.raw)

def fieldNode (facts : List CoreOp) (decl : FieldId × String) : FieldNode where
  id := decl.1.raw
  name := decl.2
  fieldType := (facts.filterMap (fieldTypeFact decl.1.raw)).getLast?

/-- The class of a declaration: its members from `defs`, its facts from `facts`. -/
def classNode (defs facts : List CoreOp) (decl : ClassId × String) : ClassNode where
  id := decl.1.raw
  name := decl.2
  methods := (defs.filterMap (methodDecl decl.1)).map (methodNode facts)
  fields := (defs.filterMap (fieldDecl decl.1)).map (fieldNode facts)
  modifiers := facts.filterMap (classModifiersFact decl.1.raw)
  classFlags := facts.filterMap (classFlagsFact decl.1.raw)
  parent := (facts.filterMap (extendsFact decl.1.raw)).getLast?
  baseTypeRefs := facts.filterMap (baseTypeFact decl.1.raw)
  implements := facts.filterMap (implementsFact decl.1.raw)
  injects := facts.filterMap (injectsFact decl.1.raw)
  patterns := facts.filterMap (classPattern decl.1.raw)
  synthetic := false

def interfaceNode (defs facts : List CoreOp) (decl : InterfaceId × String) : InterfaceNode where
  id := decl.1.raw
  name := decl.2
  methods := (defs.filterMap (interfaceMethodDecl decl.1)).map (methodNode facts)
  fields := (defs.filterMap (interfaceFieldDecl decl.1)).map (fieldNode facts)
  modifiers := facts.filterMap (interfaceModifiersFact decl.1.raw)
  parents := facts.filterMap (interfaceExtendsFact decl.1.raw)

/-- The hierarchy of a stream. -/
def project (ops : List CoreOp) : HierarchicalIR where
  classes := (ops.filterMap classDecl).map (classNode ops ops)
  interfaces := (ops.filterMap interfaceDecl).map (interfaceNode ops ops)
  imports := ops.filterMap importRow
  typeAliases := ops.filterMap typeAliasRow
  calls := ops.filterMap callRow

end Hierarchical
end CleanCtx
