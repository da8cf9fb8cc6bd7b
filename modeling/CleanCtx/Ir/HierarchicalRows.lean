import CleanCtx.Library.Rows
import CleanCtx.Ir.HierarchicalAttach
import CleanCtx.Ir.HierarchicalDecode

/-!
The rows of a stream: the instructions of one opcode at one node. Each list of
the hierarchical form holds exactly one row, and its emitter writes that row.
-/
namespace CleanCtx
namespace Hierarchical

/-- The node an operation is filed under: the owner of a member, else the node of a fact. -/
def filingTarget : CoreOp → Option Target
  | .defMethod c _ _ | .defField c _ _ => some (.class c)
  | .defInterfaceMethod i _ _ | .defInterfaceField i _ _ => some (.interface i)
  | op => factTarget op

def orderKey (op : CoreOp) : DeltaOpcode × Option Target := (op.opcode, filingTarget op)

/-! The rows of the declarations and of the file-level tables. -/

theorem classDecl_row : IsRow orderKey (.defClass, none) classDecl
    fun d => [.defClass d.1.raw d.2] where
  sound op _ h := by
    unfold classDecl at h
    split at h <;> cases h
    exact ⟨rfl, rfl⟩
  complete op h := by
    cases op <;> cases h
    rfl

theorem interfaceDecl_row : IsRow orderKey (.defInterface, none) interfaceDecl
    fun d => [.defInterface d.1.raw d.2] where
  sound op _ h := by
    unfold interfaceDecl at h
    split at h <;> cases h
    exact ⟨rfl, rfl⟩
  complete op h := by
    cases op <;> cases h
    rfl

theorem importRow_row : IsRow orderKey (.importModule, none) importRow
    emitImport where
  sound op _ h := by
    unfold importRow at h
    split at h <;> cases h
    exact ⟨rfl, rfl⟩
  complete op h := by
    cases op <;> cases h
    rfl

theorem typeAliasRow_row : IsRow orderKey (.typeAlias, none) typeAliasRow
    emitTypeAlias where
  sound op _ h := by
    unfold typeAliasRow at h
    split at h <;> cases h
    exact ⟨rfl, rfl⟩
  complete op h := by
    cases op <;> cases h
    rfl

theorem callRow_row : IsRow orderKey (.call, none) callRow
    fun call => [emitCall call] where
  sound op _ h := by
    unfold callRow at h
    split at h <;> cases h
    exact ⟨rfl, rfl⟩
  complete op h := by
    cases op <;> cases h
    rfl

theorem methodDecl_row (c : ClassId) : IsRow orderKey (.defMethod, some (.class c.raw))
    (methodDecl c) fun e => [.defMethod c.raw e.1.raw e.2] where
  sound op _ h := by
    unfold methodDecl at h
    split at h
    · obtain ⟨rfl, rfl⟩ := named_eq_some.mp h
      exact ⟨rfl, rfl⟩
    · cases h
  complete op h := by
    cases op <;> cases h
    simp [methodDecl]

theorem fieldDecl_row (c : ClassId) : IsRow orderKey (.defField, some (.class c.raw))
    (fieldDecl c) fun e => [.defField c.raw e.1.raw e.2] where
  sound op _ h := by
    unfold fieldDecl at h
    split at h
    · obtain ⟨rfl, rfl⟩ := named_eq_some.mp h
      exact ⟨rfl, rfl⟩
    · cases h
  complete op h := by
    cases op <;> cases h
    simp [fieldDecl]

theorem interfaceMethodDecl_row (i : InterfaceId) :
    IsRow orderKey (.defInterfaceMethod, some (.interface i.raw)) (interfaceMethodDecl i)
      fun e => [.defInterfaceMethod i.raw e.1.raw e.2] where
  sound op _ h := by
    unfold interfaceMethodDecl at h
    split at h
    · obtain ⟨rfl, rfl⟩ := named_eq_some.mp h
      exact ⟨rfl, rfl⟩
    · cases h
  complete op h := by
    cases op <;> cases h
    simp [interfaceMethodDecl]

theorem interfaceFieldDecl_row (i : InterfaceId) :
    IsRow orderKey (.defInterfaceField, some (.interface i.raw)) (interfaceFieldDecl i)
      fun e => [.defInterfaceField i.raw e.1.raw e.2] where
  sound op _ h := by
    unfold interfaceFieldDecl at h
    split at h
    · obtain ⟨rfl, rfl⟩ := named_eq_some.mp h
      exact ⟨rfl, rfl⟩
    · cases h
  complete op h := by
    cases op <;> cases h
    simp [interfaceFieldDecl]

/-! The rows of a method. -/

theorem paramFact_row (m : String) : IsRow orderKey (.param, some (.method m))
    (paramFact m) (emitParam m) where
  sound op _ h := by
    unfold paramFact at h
    split at h
    · obtain ⟨rfl, rfl⟩ := named_eq_some.mp h
      exact ⟨rfl, rfl⟩
    · cases h
  complete op h := by
    cases op <;> cases h
    simp [paramFact]

theorem returnFact_row (m : String) : IsRow orderKey (.ret, some (.method m))
    (returnFact m) fun ty => [.ret m ty] where
  sound op _ h := by
    unfold returnFact at h
    split at h
    · obtain ⟨rfl, rfl⟩ := named_eq_some.mp h
      exact ⟨rfl, rfl⟩
    · cases h
  complete op h := by
    cases op <;> cases h
    simp [returnFact]

theorem modifiersFact_row (m : String) : IsRow orderKey (.methodModifiers, some (.method m))
    (modifiersFact m) fun a => [.methodModifiers m a] where
  sound op _ h := by
    unfold modifiersFact at h
    split at h
    · obtain ⟨rfl, rfl⟩ := named_eq_some.mp h
      exact ⟨rfl, rfl⟩
    · cases h
  complete op h := by
    cases op <;> cases h
    simp [modifiersFact]

theorem summaryFact_row (m : String) : IsRow orderKey (.controlSummary, some (.method m))
    (summaryFact m) fun a => [.controlSummary m a] where
  sound op _ h := by
    unfold summaryFact at h
    split at h
    · obtain ⟨rfl, rfl⟩ := named_eq_some.mp h
      exact ⟨rfl, rfl⟩
    · cases h
  complete op h := by
    cases op <;> cases h
    simp [summaryFact]

theorem patternFact_row (m : String) : IsRow orderKey (.patternFacts, some (.method m))
    (patternFact m) fun a => [.patternFacts m a] where
  sound op _ h := by
    unfold patternFact at h
    split at h
    · obtain ⟨rfl, rfl⟩ := named_eq_some.mp h
      exact ⟨rfl, rfl⟩
    · cases h
  complete op h := by
    cases op <;> cases h
    simp [patternFact]

theorem flagsFact_row (m : String) : IsRow orderKey (.flags, some (.method m))
    (flagsFact m) fun a => [.flags m a] where
  sound op _ h := by
    unfold flagsFact at h
    split at h
    · obtain ⟨rfl, rfl⟩ := named_eq_some.mp h
      exact ⟨rfl, rfl⟩
    · cases h
  complete op h := by
    cases op <;> cases h
    simp [flagsFact]

theorem bodyFact_row (m : String) : IsRow orderKey (.body, some (.method m))
    (bodyFact m) fun a => [.body m a.1 a.2.1 a.2.2] where
  sound op _ h := by
    unfold bodyFact at h
    split at h
    · obtain ⟨rfl, rfl⟩ := named_eq_some.mp h
      exact ⟨rfl, rfl⟩
    · cases h
  complete op h := by
    cases op <;> cases h
    simp [bodyFact]

theorem controlFact_row (m : String) : IsRow orderKey (.controlFlow, some (.method m))
    (controlFact m) (emitControl m) where
  sound op _ h := by
    unfold controlFact at h
    split at h
    · obtain ⟨rfl, rfl⟩ := named_eq_some.mp h
      exact ⟨rfl, rfl⟩
    · cases h
  complete op h := by
    cases op <;> cases h
    simp [controlFact]

theorem flowFact_row (m : String) : IsRow orderKey (.dataFlow, some (.method m))
    (flowFact m) (emitFlow m) where
  sound op _ h := by
    unfold flowFact at h
    split at h
    · obtain ⟨rfl, rfl⟩ := named_eq_some.mp h
      exact ⟨rfl, rfl⟩
    · cases h
  complete op h := by
    cases op <;> cases h
    simp [flowFact]

theorem effectFact_row (m : String) : IsRow orderKey (.sideEffect, some (.method m))
    (effectFact m) fun a => [.sideEffect m a] where
  sound op _ h := by
    unfold effectFact at h
    split at h
    · obtain ⟨rfl, rfl⟩ := named_eq_some.mp h
      exact ⟨rfl, rfl⟩
    · cases h
  complete op h := by
    cases op <;> cases h
    simp [effectFact]

theorem contextFact_row (m : String) : IsRow orderKey (.executionContext, some (.method m))
    (contextFact m) fun a => [.executionContext m a] where
  sound op _ h := by
    unfold contextFact at h
    split at h
    · obtain ⟨rfl, rfl⟩ := named_eq_some.mp h
      exact ⟨rfl, rfl⟩
    · cases h
  complete op h := by
    cases op <;> cases h
    simp [contextFact]

theorem methodPattern_row (m : String) : IsRow orderKey (.pattern, some (.method m))
    (methodPattern m) fun p => [emitPattern p] where
  sound op _ h := by
    unfold methodPattern at h
    split at h
    · split at h
      · cases h
      · next hoperands =>
        obtain ⟨rfl, rfl⟩ := named_eq_some.mp h
        exact ⟨by simp [orderKey, filingTarget, factTarget, hoperands, CoreOp.opcode], rfl⟩
    · cases h
  complete op h := by
    cases op with
    | pattern name args =>
        cases hoperands : patternOperands name args <;>
          simp_all [orderKey, filingTarget, factTarget, methodPattern]
    | _ => cases h

/-! The rows of a field, of a class and of an interface. -/

theorem fieldTypeFact_row (f : String) : IsRow orderKey (.fieldType, some (.field f))
    (fieldTypeFact f) fun ty => [.fieldType f ty] where
  sound op _ h := by
    unfold fieldTypeFact at h
    split at h
    · obtain ⟨rfl, rfl⟩ := named_eq_some.mp h
      exact ⟨rfl, rfl⟩
    · cases h
  complete op h := by
    cases op <;> cases h
    simp [fieldTypeFact]

theorem classModifiersFact_row (c : String) : IsRow orderKey (.classModifiers, some (.class c))
    (classModifiersFact c) fun a => [.classModifiers c a] where
  sound op _ h := by
    unfold classModifiersFact at h
    split at h
    · obtain ⟨rfl, rfl⟩ := named_eq_some.mp h
      exact ⟨rfl, rfl⟩
    · cases h
  complete op h := by
    cases op <;> cases h
    simp [classModifiersFact]

theorem classFlagsFact_row (c : String) : IsRow orderKey (.classFlags, some (.class c))
    (classFlagsFact c) fun a => [.classFlags c a] where
  sound op _ h := by
    unfold classFlagsFact at h
    split at h
    · obtain ⟨rfl, rfl⟩ := named_eq_some.mp h
      exact ⟨rfl, rfl⟩
    · cases h
  complete op h := by
    cases op <;> cases h
    simp [classFlagsFact]

theorem extendsFact_row (c : String) : IsRow orderKey (.classExtends, some (.class c))
    (extendsFact c) fun a => [.classExtends c a] where
  sound op _ h := by
    unfold extendsFact at h
    split at h
    · obtain ⟨rfl, rfl⟩ := named_eq_some.mp h
      exact ⟨rfl, rfl⟩
    · cases h
  complete op h := by
    cases op <;> cases h
    simp [extendsFact]

theorem baseTypeFact_row (c : String) : IsRow orderKey (.baseTypeRef, some (.class c))
    (baseTypeFact c) fun a => [.baseTypeRef c a] where
  sound op _ h := by
    unfold baseTypeFact at h
    split at h
    · obtain ⟨rfl, rfl⟩ := named_eq_some.mp h
      exact ⟨rfl, rfl⟩
    · cases h
  complete op h := by
    cases op <;> cases h
    simp [baseTypeFact]

theorem implementsFact_row (c : String) : IsRow orderKey (.implements, some (.class c))
    (implementsFact c) fun a => [.implements c a] where
  sound op _ h := by
    unfold implementsFact at h
    split at h
    · obtain ⟨rfl, rfl⟩ := named_eq_some.mp h
      exact ⟨rfl, rfl⟩
    · cases h
  complete op h := by
    cases op <;> cases h
    simp [implementsFact]

theorem injectsFact_row (c : String) : IsRow orderKey (.injects, some (.class c))
    (injectsFact c) fun a => [.injects c a] where
  sound op _ h := by
    unfold injectsFact at h
    split at h
    · obtain ⟨rfl, rfl⟩ := named_eq_some.mp h
      exact ⟨rfl, rfl⟩
    · cases h
  complete op h := by
    cases op <;> cases h
    simp [injectsFact]

theorem classPattern_row (c : String) : IsRow orderKey (.pattern, some (.class c))
    (classPattern c) fun p => [emitPattern p] where
  sound op _ h := by
    unfold classPattern at h
    split at h
    · split at h
      · next hoperands =>
        obtain ⟨rfl, rfl⟩ := named_eq_some.mp h
        exact ⟨by simp [orderKey, filingTarget, factTarget, hoperands, CoreOp.opcode], rfl⟩
      · cases h
    · cases h
  complete op h := by
    cases op with
    | pattern name args =>
        cases hoperands : patternOperands name args <;>
          simp_all [orderKey, filingTarget, factTarget, classPattern]
    | _ => cases h

theorem interfaceModifiersFact_row (i : String) :
    IsRow orderKey (.interfaceModifiers, some (.interface i)) (interfaceModifiersFact i)
      fun a => [.interfaceModifiers i a] where
  sound op _ h := by
    unfold interfaceModifiersFact at h
    split at h
    · obtain ⟨rfl, rfl⟩ := named_eq_some.mp h
      exact ⟨rfl, rfl⟩
    · cases h
  complete op h := by
    cases op <;> cases h
    simp [interfaceModifiersFact]

theorem interfaceExtendsFact_row (i : String) :
    IsRow orderKey (.interfaceExtends, some (.interface i)) (interfaceExtendsFact i)
      fun a => [.interfaceExtends i a] where
  sound op _ h := by
    unfold interfaceExtendsFact at h
    split at h
    · obtain ⟨rfl, rfl⟩ := named_eq_some.mp h
      exact ⟨rfl, rfl⟩
    · cases h
  complete op h := by
    cases op <;> cases h
    simp [interfaceExtendsFact]

end Hierarchical
end CleanCtx
