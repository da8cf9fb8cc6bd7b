import CleanCtx.Ir.HierarchicalPlacement
import CleanCtx.Ir.IdentityCollector

/-!
The second pass of the projection attaches each fact to the one node its
identity names. Together with the first pass: on a valid stream the checked
projection never fails, and its result is the declarative one.
-/
namespace CleanCtx
namespace Hierarchical

/-- The node a fact belongs to. -/
inductive Target
  | class (id : String)
  | method (id : String)
  | field (id : String)
  | interface (id : String)
  deriving DecidableEq

/-- The node that an operation adds a fact to; declarations and tables add none. -/
def factTarget : CoreOp → Option Target
  | .param m _ _ _ | .ret m _ | .methodModifiers m _ | .controlSummary m _ | .patternFacts m _
  | .flags m _ | .body m _ _ _ | .dataFlow m _ _ | .controlFlow m _ _ | .sideEffect m _
  | .executionContext m _ => some (.method m)
  | .fieldType f _ => some (.field f)
  | .classModifiers c _ | .classFlags c _ | .classExtends c _ | .baseTypeRef c _
  | .implements c _ | .injects c _ => some (.class c)
  | .interfaceModifiers i _ | .interfaceExtends i _ => some (.interface i)
  | .pattern name args =>
      match patternOperands name args with
      | .class c => some (.class c.raw)
      | .method _ m => some (.method m.raw)
  | _ => none

def updateMethod (op : CoreOp) (m : MethodNode) : MethodNode :=
  match op with
  | .param _ parameterId ty name => { m with params := m.params ++ [[parameterId, ty, name]] }
  | .ret _ ty => { m with returnType := some ty }
  | .methodModifiers _ modifiers => { m with modifiers := m.modifiers ++ [modifiers] }
  | .controlSummary _ summaries => { m with controlSummaries := m.controlSummaries ++ [summaries] }
  | .patternFacts _ facts => { m with patternFacts := m.patternFacts ++ [facts] }
  | .flags _ flags => { m with flags := m.flags ++ [flags] }
  | .body _ text start stop => { m with body := some text, bodyStart := start, bodyEnd := stop }
  | .controlFlow _ kind target => { m with controlFlow := m.controlFlow ++ [[kind, target]] }
  | .dataFlow _ direction target => { m with dataFlow := m.dataFlow ++ [[direction, target]] }
  | .sideEffect _ effect => { m with sideEffect := m.sideEffect ++ [effect] }
  | .executionContext _ context => { m with executionContext := m.executionContext ++ [context] }
  | .pattern name args => { m with patterns := m.patterns ++ [{ name, args }] }
  | _ => m

def updateField (op : CoreOp) (field : FieldNode) : FieldNode :=
  match op with
  | .fieldType _ ty => { field with fieldType := some ty }
  | _ => field

def updateClass (op : CoreOp) (node : ClassNode) : ClassNode :=
  match op with
  | .classModifiers _ modifiers => { node with modifiers := node.modifiers ++ [modifiers] }
  | .classFlags _ flags => { node with classFlags := node.classFlags ++ [flags] }
  | .classExtends _ parent => { node with parent := some parent }
  | .baseTypeRef _ writtenType => { node with baseTypeRefs := node.baseTypeRefs ++ [writtenType] }
  | .implements _ interfaceId => { node with implements := node.implements ++ [interfaceId] }
  | .injects _ deps => { node with injects := node.injects ++ [deps] }
  | .pattern name args => { node with patterns := node.patterns ++ [{ name, args }] }
  | _ => node

def updateInterface (op : CoreOp) (node : InterfaceNode) : InterfaceNode :=
  match op with
  | .interfaceModifiers _ modifiers => { node with modifiers := node.modifiers ++ [modifiers] }
  | .interfaceExtends _ parent => { node with parents := node.parents ++ [parent] }
  | _ => node

section Concat

variable {α β : Type} {f : α → Option β} {l : List α} {a : α} {b : β}

theorem filterMap_silent (h : f a = none) : (l ++ [a]).filterMap f = l.filterMap f := by
  simp [h]

theorem filterMap_fired (h : f a = some b) : (l ++ [a]).filterMap f = l.filterMap f ++ [b] := by
  simp [h]

theorem getLast?_silent (h : f a = none) :
    ((l ++ [a]).filterMap f).getLast? = (l.filterMap f).getLast? := by
  simp [h]

theorem getLast?_fired (h : f a = some b) : ((l ++ [a]).filterMap f).getLast? = some b := by
  simp [h]

end Concat

/-- A fact of another node leaves a method as it is. -/
theorem methodNode_silent {facts : List CoreOp} {op : CoreOp} {d : MethodId × String}
    (h : factTarget op ≠ some (.method d.1.raw)) :
    methodNode (facts ++ [op]) d = methodNode facts d := by
  have hnamed : ∀ {α : Type} {m : String} {a : α}, factTarget op = some (.method m) →
      named m d.1.raw a = none :=
    fun htarget => named_of_ne (by rintro rfl; exact h htarget) _
  have hpattern : methodPattern d.1.raw op = none := by
    unfold methodPattern
    split
    · split
      · rfl
      · rename_i hoperands
        exact hnamed (by simp [factTarget, hoperands])
    · rfl
  have hparam : paramFact d.1.raw op = none := by
    unfold paramFact; split; exact hnamed rfl; rfl
  have hreturn : returnFact d.1.raw op = none := by
    unfold returnFact; split; exact hnamed rfl; rfl
  have hmodifiers : modifiersFact d.1.raw op = none := by
    unfold modifiersFact; split; exact hnamed rfl; rfl
  have hsummary : summaryFact d.1.raw op = none := by
    unfold summaryFact; split; exact hnamed rfl; rfl
  have hfacts : patternFact d.1.raw op = none := by
    unfold patternFact; split; exact hnamed rfl; rfl
  have hflags : flagsFact d.1.raw op = none := by
    unfold flagsFact; split; exact hnamed rfl; rfl
  have hbody : bodyFact d.1.raw op = none := by
    unfold bodyFact; split; exact hnamed rfl; rfl
  have hcontrol : controlFact d.1.raw op = none := by
    unfold controlFact; split; exact hnamed rfl; rfl
  have hflow : flowFact d.1.raw op = none := by
    unfold flowFact; split; exact hnamed rfl; rfl
  have heffect : effectFact d.1.raw op = none := by
    unfold effectFact; split; exact hnamed rfl; rfl
  have hcontext : contextFact d.1.raw op = none := by
    unfold contextFact; split; exact hnamed rfl; rfl
  simp only [methodNode, filterMap_silent hparam, filterMap_silent hreturn,
    filterMap_silent hmodifiers, filterMap_silent hsummary, filterMap_silent hfacts,
    filterMap_silent hflags, filterMap_silent hpattern, filterMap_silent hbody,
    filterMap_silent hcontrol, filterMap_silent hflow, filterMap_silent heffect,
    filterMap_silent hcontext]

/-- A fact of a method becomes the last of its kind. -/
theorem methodNode_fired {facts : List CoreOp} {op : CoreOp} {d : MethodId × String}
    (h : factTarget op = some (.method d.1.raw)) :
    methodNode (facts ++ [op]) d = updateMethod op (methodNode facts d) := by
  cases op with
  | pattern name args =>
      have hpattern : methodPattern d.1.raw (.pattern name args) = some { name, args } := by
        cases hoperands : patternOperands name args with
        | «class» c => simp [factTarget, hoperands] at h
        | method c m =>
            simp only [factTarget, hoperands, Option.some.injEq, Target.method.injEq] at h
            simp [methodPattern, hoperands, h]
      apply MethodNode.ext
      all_goals first
        | rfl
        | exact filterMap_fired hpattern
        | exact filterMap_silent rfl
        | exact getLast?_silent rfl
        | exact congrArg (Option.map _) (getLast?_silent rfl)
        | exact congrArg (Option.bind · _) (getLast?_silent rfl)
  | body m text start stop =>
      cases h
      have hlast : ((facts ++ [CoreOp.body d.1.raw text start stop]).filterMap
          (bodyFact d.1.raw)).getLast? = some (text, start, stop) := getLast?_fired (named_self _ _)
      apply MethodNode.ext
      all_goals first
        | rfl
        | exact filterMap_silent rfl
        | exact getLast?_silent rfl
        | exact congrArg (Option.map Prod.fst) hlast
        | exact congrArg (fun last => Option.bind last fun b => b.2.1) hlast
        | exact congrArg (fun last => Option.bind last fun b => b.2.2) hlast
  | param _ _ _ _ | ret _ _ | methodModifiers _ _ | controlSummary _ _ | patternFacts _ _
  | flags _ _ | dataFlow _ _ _ | controlFlow _ _ _ | sideEffect _ _ | executionContext _ _ =>
      cases h
      apply MethodNode.ext
      all_goals first
        | rfl
        | exact filterMap_silent rfl
        | exact filterMap_fired (named_self _ _)
        | exact getLast?_silent rfl
        | exact getLast?_fired (named_self _ _)
        | exact congrArg (Option.map _) (getLast?_silent rfl)
        | exact congrArg (Option.bind · _) (getLast?_silent rfl)
  | _ => cases h

theorem fieldNode_silent {facts : List CoreOp} {op : CoreOp} {d : FieldId × String}
    (h : factTarget op ≠ some (.field d.1.raw)) :
    fieldNode (facts ++ [op]) d = fieldNode facts d := by
  have htype : fieldTypeFact d.1.raw op = none := by
    unfold fieldTypeFact
    split
    · exact named_of_ne (by rintro rfl; exact h rfl) _
    · rfl
  simp only [fieldNode, filterMap_silent htype]

theorem fieldNode_fired {facts : List CoreOp} {op : CoreOp} {d : FieldId × String}
    (h : factTarget op = some (.field d.1.raw)) :
    fieldNode (facts ++ [op]) d = updateField op (fieldNode facts d) := by
  cases op with
  | fieldType f ty =>
      cases h
      exact FieldNode.ext rfl rfl (getLast?_fired (named_self _ _))
  | pattern name args =>
      simp only [factTarget] at h
      split at h <;> simp at h
  | _ => cases h

def classOwn (facts : List CoreOp) (d : ClassId × String) : ClassNode := classNode [] facts d

def interfaceOwn (facts : List CoreOp) (d : InterfaceId × String) : InterfaceNode :=
  interfaceNode [] facts d

theorem classOwn_silent {facts : List CoreOp} {op : CoreOp} {d : ClassId × String}
    (h : factTarget op ≠ some (.class d.1.raw)) :
    classOwn (facts ++ [op]) d = classOwn facts d := by
  have hnamed : ∀ {α : Type} {c : String} {a : α}, factTarget op = some (.class c) →
      named c d.1.raw a = none :=
    fun htarget => named_of_ne (by rintro rfl; exact h htarget) _
  have hpattern : classPattern d.1.raw op = none := by
    unfold classPattern
    split
    · split
      · rename_i hoperands
        exact hnamed (by simp [factTarget, hoperands])
      · rfl
    · rfl
  have hmodifiers : classModifiersFact d.1.raw op = none := by
    unfold classModifiersFact; split; exact hnamed rfl; rfl
  have hflags : classFlagsFact d.1.raw op = none := by
    unfold classFlagsFact; split; exact hnamed rfl; rfl
  have hextends : extendsFact d.1.raw op = none := by
    unfold extendsFact; split; exact hnamed rfl; rfl
  have hbase : baseTypeFact d.1.raw op = none := by
    unfold baseTypeFact; split; exact hnamed rfl; rfl
  have himplements : implementsFact d.1.raw op = none := by
    unfold implementsFact; split; exact hnamed rfl; rfl
  have hinjects : injectsFact d.1.raw op = none := by
    unfold injectsFact; split; exact hnamed rfl; rfl
  simp only [classOwn, classNode, List.filterMap_nil, List.map_nil, filterMap_silent hmodifiers,
    filterMap_silent hflags, filterMap_silent hextends, filterMap_silent hbase,
    filterMap_silent himplements, filterMap_silent hinjects, filterMap_silent hpattern]

theorem classOwn_fired {facts : List CoreOp} {op : CoreOp} {d : ClassId × String}
    (h : factTarget op = some (.class d.1.raw)) :
    classOwn (facts ++ [op]) d = updateClass op (classOwn facts d) := by
  cases op with
  | pattern name args =>
      have hpattern : classPattern d.1.raw (.pattern name args) = some { name, args } := by
        cases hoperands : patternOperands name args with
        | «class» c =>
            simp only [factTarget, hoperands, Option.some.injEq, Target.class.injEq] at h
            simp [classPattern, hoperands, h]
        | method c m => simp [factTarget, hoperands] at h
      apply ClassNode.ext
      all_goals first
        | rfl
        | exact filterMap_fired hpattern
        | exact filterMap_silent rfl
        | exact getLast?_silent rfl
  | classModifiers _ _ | classFlags _ _ | classExtends _ _ | baseTypeRef _ _ | implements _ _
  | injects _ _ =>
      cases h
      apply ClassNode.ext
      all_goals first
        | rfl
        | exact filterMap_silent rfl
        | exact filterMap_fired (named_self _ _)
        | exact getLast?_silent rfl
        | exact getLast?_fired (named_self _ _)
  | _ => cases h

theorem interfaceOwn_silent {facts : List CoreOp} {op : CoreOp} {d : InterfaceId × String}
    (h : factTarget op ≠ some (.interface d.1.raw)) :
    interfaceOwn (facts ++ [op]) d = interfaceOwn facts d := by
  have hmodifiers : interfaceModifiersFact d.1.raw op = none := by
    unfold interfaceModifiersFact
    split
    · exact named_of_ne (by rintro rfl; exact h rfl) _
    · rfl
  have hextends : interfaceExtendsFact d.1.raw op = none := by
    unfold interfaceExtendsFact
    split
    · exact named_of_ne (by rintro rfl; exact h rfl) _
    · rfl
  simp only [interfaceOwn, interfaceNode, List.filterMap_nil, List.map_nil,
    filterMap_silent hmodifiers, filterMap_silent hextends]

theorem interfaceOwn_fired {facts : List CoreOp} {op : CoreOp} {d : InterfaceId × String}
    (h : factTarget op = some (.interface d.1.raw)) :
    interfaceOwn (facts ++ [op]) d = updateInterface op (interfaceOwn facts d) := by
  cases op with
  | interfaceModifiers _ _ | interfaceExtends _ _ =>
      cases h
      apply InterfaceNode.ext
      all_goals first
        | rfl
        | exact filterMap_silent rfl
        | exact filterMap_fired (named_self _ _)
  | pattern name args =>
      simp only [factTarget] at h
      split at h <;> simp at h
  | _ => cases h

theorem classNode_eq (defs facts : List CoreOp) (d : ClassId × String) :
    classNode defs facts d = { classOwn facts d with
      methods := (defs.filterMap (methodDecl d.1)).map (methodNode facts)
      fields := (defs.filterMap (fieldDecl d.1)).map (fieldNode facts) } := rfl

theorem interfaceNode_eq (defs facts : List CoreOp) (d : InterfaceId × String) :
    interfaceNode defs facts d = { interfaceOwn facts d with
      methods := (defs.filterMap (interfaceMethodDecl d.1)).map (methodNode facts)
      fields := (defs.filterMap (interfaceFieldDecl d.1)).map (fieldNode facts) } := rfl

end Hierarchical
end CleanCtx
