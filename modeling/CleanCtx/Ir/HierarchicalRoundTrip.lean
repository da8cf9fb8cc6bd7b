import CleanCtx.Ir.HierarchicalRows
import CleanCtx.Ir.HierarchicalTree

/-!
Projecting a valid stream and flattening it again keeps every row: nothing is
lost, copied or filed under another node, and the projection of the flattened
stream is the projection it came from.
-/
namespace CleanCtx
namespace Hierarchical

/-- The opcodes filed under a node, in emission order; without a node, the file's own. -/
def nodeOpcodes : Option Target → List DeltaOpcode
  | none => [.defClass, .defInterface, .importModule, .typeAlias, .call]
  | some (.class _) =>
      [.classModifiers, .classFlags, .classExtends, .baseTypeRef, .implements, .injects,
        .defField, .defMethod, .pattern]
  | some (.interface _) =>
      [.interfaceModifiers, .interfaceExtends, .defInterfaceField, .defInterfaceMethod]
  | some (.method _) =>
      [.param, .ret, .methodModifiers, .controlSummary, .patternFacts, .flags, .body, .controlFlow,
        .dataFlow, .sideEffect, .executionContext, .pattern]
  | some (.field _) => [.fieldType]

theorem nodup_nodeOpcodes (target : Option Target) : (nodeOpcodes target).Nodup := by
  rcases target with _ | _ | _ | _ | _ <;> simp [nodeOpcodes]

theorem opcode_mem_nodeOpcodes (op : CoreOp) : op.opcode ∈ nodeOpcodes (filingTarget op) := by
  cases op with
  | pattern name args =>
      cases hoperands : patternOperands name args <;>
        simp [filingTarget, factTarget, hoperands, nodeOpcodes, CoreOp.opcode]
  | _ => simp [filingTarget, factTarget, nodeOpcodes, CoreOp.opcode]

def rowsAt (ops : List CoreOp) (target : Option Target) (opcodes : List DeltaOpcode) :
    List CoreOp :=
  (opcodes.map (·, target)).flatMap fun row => ops.filter (orderKey · = row)

def nodeRows (ops : List CoreOp) (target : Option Target) : List CoreOp :=
  rowsAt ops target (nodeOpcodes target)

variable {ops : List CoreOp}

/-- A row whose operations share a slot has at most one element. -/
theorem singular_row {α : Type} (hvalid : Valid ops) {k : DeltaOpcode × Option Target}
    {sel : CoreOp → Option α} {emit : α → CoreOp} {s : Slot}
    (hrow : IsRow orderKey k sel fun a => [emit a]) (hslot : ∀ a, (emit a).slot = some s) :
    (ops.filterMap sel).getLast?.toList = ops.filterMap sel := by
  have hsel : ∀ op a, sel op = some a → op.slot = some ((fun _ => s) a) := by
    intro op a ha
    obtain ⟨-, hop⟩ := hrow.sound op a ha
    rw [← List.singleton_inj.mp hop, hslot]
  have hnodup := hvalid.unique.sublist (Lists.map_filterMap_sublist hsel ops)
  rw [List.map_const', List.nodup_replicate] at hnodup
  match ops.filterMap sel, hnodup with
  | [], _ | [_], _ => rfl
  | _ :: _ :: _, hlong =>
      rw [List.length_cons, List.length_cons] at hlong
      omega

theorem emitBody_eq (facts : List CoreOp) (d : MethodId × String) :
    emitBody (methodNode facts d) =
      (facts.filterMap (bodyFact d.1.raw)).getLast?.toList.map
        fun a => CoreOp.body d.1.raw a.1 a.2.1 a.2.2 := by
  unfold emitBody methodNode
  cases (facts.filterMap (bodyFact d.1.raw)).getLast? <;> rfl

/-- A method emits the rows of its node. -/
theorem emitMethodFacts_methodNode (hvalid : Valid ops) (d : MethodId × String) :
    emitMethodFacts (methodNode ops d) =
      nodeRows ops (some (.method d.1.raw)) := by
  have hret := singular_row hvalid (returnFact_row d.1.raw) fun _ => rfl
  have hbody := singular_row hvalid (bodyFact_row d.1.raw) fun _ => rfl
  rw [emitMethodFacts, emitBody_eq, hbody]
  simp only [methodNode, hret, (paramFact_row _).flatMap_eq, (returnFact_row _).map_eq,
    (modifiersFact_row _).map_eq, (summaryFact_row _).map_eq, (patternFact_row _).map_eq,
    (flagsFact_row _).map_eq, (bodyFact_row _).map_eq, (controlFact_row _).flatMap_eq,
    (flowFact_row _).flatMap_eq, (effectFact_row _).map_eq, (contextFact_row _).map_eq,
    (methodPattern_row _).map_eq]
  simp only [nodeRows, rowsAt, nodeOpcodes, List.map_cons, List.map_nil, List.flatMap_cons,
    List.flatMap_nil, List.append_nil, List.append_assoc]

theorem emitFieldFacts_fieldNode (hvalid : Valid ops) (d : FieldId × String) :
    emitFieldFacts (fieldNode ops d) = nodeRows ops (some (.field d.1.raw)) := by
  have hsingle := singular_row hvalid (fieldTypeFact_row d.1.raw) fun _ => rfl
  simp only [emitFieldFacts, fieldNode, hsingle, (fieldTypeFact_row _).map_eq, nodeRows, rowsAt,
    nodeOpcodes, List.map_cons, List.map_nil, List.flatMap_cons, List.flatMap_nil,
    List.append_nil]

theorem filter_rowsAt_of_ne {target : Option Target} {k : DeltaOpcode × Option Target}
    (h : target ≠ k.2) (opcodes : List DeltaOpcode) :
    (rowsAt ops target opcodes).filter (orderKey · = k) = [] := by
  rw [rowsAt, List.filter_flatMap]
  refine List.flatMap_eq_nil_iff.mpr fun row hrow => filter_row_of_ne ?_ ops
  obtain ⟨o, -, rfl⟩ := List.mem_map.mp hrow
  exact fun heq => h (congrArg Prod.snd heq)

theorem filter_nodeRows (ops : List CoreOp) (k : DeltaOpcode × Option Target) :
    (nodeRows ops k.2).filter (orderKey · = k) = ops.filter (orderKey · = k) := by
  refine filter_rows ?_ ops fun hnot => List.filter_eq_nil_iff.mpr fun op _ hkey => hnot ?_
  · exact (nodup_nodeOpcodes _).map fun a b h => congrArg Prod.fst h
  · rw [← of_decide_eq_true hkey]
    exact List.mem_map.mpr ⟨_, opcode_mem_nodeOpcodes op, rfl⟩

theorem filter_nodeRows_eq (target : Option Target) (k : DeltaOpcode × Option Target) :
    (nodeRows ops target).filter (orderKey · = k) =
      if target = k.2 then ops.filter (orderKey · = k) else [] := by
  split
  · next h =>
    rw [h, filter_nodeRows]
  · next h => exact filter_rowsAt_of_ne h _

theorem emitClassFacts_classNode (hvalid : Valid ops) (d : ClassId × String) :
    emitClassFacts (classNode ops ops d) = rowsAt ops (some (.class d.1.raw))
      [.classModifiers, .classFlags, .classExtends, .baseTypeRef, .implements, .injects] := by
  have hextends := singular_row hvalid (extendsFact_row d.1.raw) fun _ => rfl
  simp only [emitClassFacts, classNode, hextends, (classModifiersFact_row _).map_eq,
    (classFlagsFact_row _).map_eq, (extendsFact_row _).map_eq, (baseTypeFact_row _).map_eq,
    (implementsFact_row _).map_eq, (injectsFact_row _).map_eq, rowsAt, List.map_cons,
    List.map_nil, List.flatMap_cons, List.flatMap_nil, List.append_nil, List.append_assoc]

theorem emitInterfaceFacts_interfaceNode (d : InterfaceId × String) :
    emitInterfaceFacts (interfaceNode ops ops d) = rowsAt ops (some (.interface d.1.raw))
      [.interfaceModifiers, .interfaceExtends] := by
  simp only [emitInterfaceFacts, interfaceNode, (interfaceModifiersFact_row _).map_eq,
    (interfaceExtendsFact_row _).map_eq, rowsAt, List.map_cons, List.map_nil, List.flatMap_cons,
    List.flatMap_nil, List.append_nil]

/-- What a class emits, row by row. -/
theorem emitClass_classNode (hvalid : Valid ops) (d : ClassId × String) :
    emitClass (classNode ops ops d) =
      .defClass d.1.raw d.2 :: rowsAt ops (some (.class d.1.raw))
        [.classModifiers, .classFlags, .classExtends, .baseTypeRef, .implements, .injects] ++
      ((ops.filterMap (fieldDecl d.1)).flatMap fun e =>
        .defField d.1.raw e.1.raw e.2 :: nodeRows ops (some (.field e.1.raw))) ++
      ((ops.filterMap (methodDecl d.1)).flatMap fun e =>
        .defMethod d.1.raw e.1.raw e.2 :: nodeRows ops (some (.method e.1.raw))) ++
      ops.filter (orderKey · = (.pattern, some (.class d.1.raw))) := by
  rw [← (classPattern_row d.1.raw).map_eq, ← emitClassFacts_classNode hvalid]
  simp only [← emitFieldFacts_fieldNode hvalid, ← emitMethodFacts_methodNode hvalid,
    ← emitClassMethodFacts_eq]
  simp only [emitClass, classNode, List.flatMap_map]
  rfl

theorem emitInterface_interfaceNode (hvalid : Valid ops) (d : InterfaceId × String) :
    emitInterface (interfaceNode ops ops d) =
      .defInterface d.1.raw d.2 :: rowsAt ops (some (.interface d.1.raw))
        [.interfaceModifiers, .interfaceExtends] ++
      ((ops.filterMap (interfaceFieldDecl d.1)).flatMap fun e =>
        .defInterfaceField d.1.raw e.1.raw e.2 :: nodeRows ops (some (.field e.1.raw))) ++
      ((ops.filterMap (interfaceMethodDecl d.1)).flatMap fun e =>
        .defInterfaceMethod d.1.raw e.1.raw e.2 :: nodeRows ops (some (.method e.1.raw))) := by
  rw [← emitInterfaceFacts_interfaceNode]
  simp only [← emitFieldFacts_fieldNode hvalid, ← emitMethodFacts_methodNode hvalid]
  simp only [emitInterface, interfaceNode, List.flatMap_map]
  rfl

/-- A class emits the rows filed under it. -/
theorem filter_emitClass (hvalid : Valid ops) (d : ClassId × String) (o : DeltaOpcode) :
    (emitClass (classNode ops ops d)).filter (orderKey · = (o, some (.class d.1.raw))) =
      ops.filter (orderKey · = (o, some (.class d.1.raw))) := by
  have hnode : nodeRows ops (some (.class d.1.raw)) =
      rowsAt ops (some (.class d.1.raw))
        [.classModifiers, .classFlags, .classExtends, .baseTypeRef, .implements, .injects] ++
      ops.filter (orderKey · = (.defField, some (.class d.1.raw))) ++
      ops.filter (orderKey · = (.defMethod, some (.class d.1.raw))) ++
      ops.filter (orderKey · = (.pattern, some (.class d.1.raw))) := by
    simp only [nodeRows, rowsAt, nodeOpcodes, List.map_cons, List.map_nil, List.flatMap_cons,
      List.flatMap_nil, List.append_nil, List.append_assoc]
  have hmembers : ∀ target, target ≠ .class d.1.raw →
      (nodeRows ops (some target)).filter (orderKey · = (o, some (.class d.1.raw))) = [] :=
    fun target hne => filter_rowsAt_of_ne (by simpa using hne) _
  refine Eq.trans ?_ (filter_nodeRows ops (o, some (.class d.1.raw)))
  rw [hnode, emitClass_classNode hvalid,
    List.cons_append, List.cons_append, List.cons_append, List.filter_cons_of_neg]
  · simp only [List.filter_append]
    rw [filter_heads _ fun e : FieldId × String => hmembers (.field e.1.raw) (by simp),
      filter_heads _ fun e : MethodId × String => hmembers (.method e.1.raw) (by simp),
      (fieldDecl_row d.1).map_eq, (methodDecl_row d.1).map_eq]
  · simp [orderKey, filingTarget, factTarget]

/-- Elsewhere a class contributes its declaration and the rows of its members. -/
theorem filter_emitClass_of_ne (hvalid : Valid ops) (d : ClassId × String)
    {k : DeltaOpcode × Option Target} (hk : some (.class d.1.raw) ≠ k.2) :
    (emitClass (classNode ops ops d)).filter (orderKey · = k) =
      [CoreOp.defClass d.1.raw d.2].filter (orderKey · = k) ++
      ((ops.filterMap (fieldDecl d.1)).flatMap fun e =>
        if some (.field e.1.raw) = k.2 then ops.filter (orderKey · = k) else []) ++
      ((ops.filterMap (methodDecl d.1)).flatMap fun e =>
        if some (.method e.1.raw) = k.2 then ops.filter (orderKey · = k) else []) := by
  have hhead : ∀ op, filingTarget op = some (.class d.1.raw) →
      decide (orderKey op = k) = false :=
    fun op hop => decide_eq_false fun h => hk (hop.symm.trans (congrArg Prod.snd h))
  rw [emitClass_classNode hvalid]
  simp only [List.cons_append, List.append_assoc]
  rw [← List.singleton_append]
  simp only [List.filter_append]
  rw [filter_rowsAt_of_ne hk, filter_row_of_ne (fun h => hk (congrArg Prod.snd h)),
    filter_bodies (p := (orderKey · = k)) _ fun e => hhead _ rfl,
    filter_bodies (p := (orderKey · = k)) _ fun e => hhead _ rfl,
    List.nil_append, List.append_nil]
  simp only [filter_nodeRows_eq]

theorem filter_emitInterface (hvalid : Valid ops) (d : InterfaceId × String) (o : DeltaOpcode) :
    (emitInterface (interfaceNode ops ops d)).filter
        (orderKey · = (o, some (.interface d.1.raw))) =
      ops.filter (orderKey · = (o, some (.interface d.1.raw))) := by
  have hnode : nodeRows ops (some (.interface d.1.raw)) =
      rowsAt ops (some (.interface d.1.raw)) [.interfaceModifiers, .interfaceExtends] ++
      ops.filter (orderKey · = (.defInterfaceField, some (.interface d.1.raw))) ++
      ops.filter (orderKey · = (.defInterfaceMethod, some (.interface d.1.raw))) := by
    simp only [nodeRows, rowsAt, nodeOpcodes, List.map_cons, List.map_nil, List.flatMap_cons,
      List.flatMap_nil, List.append_nil, List.append_assoc]
  have hmembers : ∀ target, target ≠ .interface d.1.raw →
      (nodeRows ops (some target)).filter (orderKey · = (o, some (.interface d.1.raw))) = [] :=
    fun target hne => filter_rowsAt_of_ne (by simpa using hne) _
  refine Eq.trans ?_ (filter_nodeRows ops (o, some (.interface d.1.raw)))
  rw [hnode, emitInterface_interfaceNode hvalid, List.cons_append, List.cons_append,
    List.filter_cons_of_neg]
  · simp only [List.filter_append]
    rw [filter_heads _ fun e : FieldId × String => hmembers (.field e.1.raw) (by simp),
      filter_heads _ fun e : MethodId × String => hmembers (.method e.1.raw) (by simp),
      (interfaceFieldDecl_row d.1).map_eq, (interfaceMethodDecl_row d.1).map_eq]
  · simp [orderKey, filingTarget, factTarget]

theorem filter_emitInterface_of_ne (hvalid : Valid ops) (d : InterfaceId × String)
    {k : DeltaOpcode × Option Target} (hk : some (.interface d.1.raw) ≠ k.2) :
    (emitInterface (interfaceNode ops ops d)).filter (orderKey · = k) =
      [CoreOp.defInterface d.1.raw d.2].filter (orderKey · = k) ++
      ((ops.filterMap (interfaceFieldDecl d.1)).flatMap fun e =>
        if some (.field e.1.raw) = k.2 then ops.filter (orderKey · = k) else []) ++
      ((ops.filterMap (interfaceMethodDecl d.1)).flatMap fun e =>
        if some (.method e.1.raw) = k.2 then ops.filter (orderKey · = k) else []) := by
  have hhead : ∀ op, filingTarget op = some (.interface d.1.raw) →
      decide (orderKey op = k) = false :=
    fun op hop => decide_eq_false fun h => hk (hop.symm.trans (congrArg Prod.snd h))
  rw [emitInterface_interfaceNode hvalid]
  simp only [List.cons_append, List.append_assoc]
  rw [← List.singleton_append]
  simp only [List.filter_append]
  rw [filter_rowsAt_of_ne hk, filter_bodies (p := (orderKey · = k)) _ fun e => hhead _ rfl,
    filter_bodies (p := (orderKey · = k)) _ fun e => hhead _ rfl, List.nil_append]
  simp only [filter_nodeRows_eq]

/-- The identity of a node. -/
def Target.identity : Target → IdentityKind × String
  | .class c => (.class, c)
  | .method m => (.method, m)
  | .field f => (.field, f)
  | .interface i => (.interface, i)

theorem identity_mem_targets {op : CoreOp} {target : Target} (h : filingTarget op = some target) :
    target.identity ∈ op.targets := by
  cases op with
  | pattern name args =>
      cases hoperands : patternOperands name args <;>
        simp [filingTarget, factTarget, hoperands] at h <;>
        simp [← h, CoreOp.targets, hoperands, Target.identity]
  | _ => cases h <;> exact List.mem_cons_self

/-- Nothing is filed under a node the stream does not declare. -/
theorem row_undeclared (hvalid : Valid ops) (target : Target)
    (hnone : ¬ Declares ops target.identity.1 target.identity.2) (o : DeltaOpcode) :
    ops.filter (orderKey · = (o, some target)) = [] := by
  refine List.filter_eq_nil_iff.mpr fun op hop hkey => hnone ?_
  refine (hvalid.resolved op hop).targets _ (identity_mem_targets ?_)
  exact congrArg Prod.snd (of_decide_eq_true hkey)

/-- What a valid stream is flattened to. -/
theorem hierarchicalToIr_project (ops : List CoreOp) :
    hierarchicalToIr (project ops) =
      ((ops.filterMap classDecl).flatMap fun d => emitClass (classNode ops ops d)) ++
      ((ops.filterMap interfaceDecl).flatMap fun d => emitInterface (interfaceNode ops ops d)) ++
      rowsAt ops none [.importModule, .typeAlias, .call] := by
  simp only [hierarchicalToIr, project, List.flatMap_map, importRow_row.flatMap_eq,
    typeAliasRow_row.flatMap_eq, callRow_row.map_eq, rowsAt, List.map_cons, List.map_nil,
    List.flatMap_cons, List.flatMap_nil, List.append_nil, List.append_assoc]

theorem filter_defClass_of_some {k : DeltaOpcode × Option Target} {target : Target}
    (hk : k.2 = some target) (d : ClassId × String) :
    [CoreOp.defClass d.1.raw d.2].filter (orderKey · = k) = [] := by
  refine List.filter_eq_nil_iff.mpr fun op hop hkey => ?_
  rw [List.mem_singleton.mp hop] at hkey
  cases (congrArg Prod.snd (of_decide_eq_true hkey)).trans hk

theorem filter_defInterface_of_some {k : DeltaOpcode × Option Target} {target : Target}
    (hk : k.2 = some target) (d : InterfaceId × String) :
    [CoreOp.defInterface d.1.raw d.2].filter (orderKey · = k) = [] := by
  refine List.filter_eq_nil_iff.mpr fun op hop hkey => ?_
  rw [List.mem_singleton.mp hop] at hkey
  cases (congrArg Prod.snd (of_decide_eq_true hkey)).trans hk

/-- The file's own rows: each node contributes its declaration. -/
theorem file_row (hvalid : Valid ops) (o : DeltaOpcode) :
    (hierarchicalToIr (project ops)).filter (orderKey · = (o, none)) =
      ops.filter (orderKey · = (o, none)) := by
  have hnode : nodeRows ops none =
      ops.filter (orderKey · = (.defClass, none)) ++
      ops.filter (orderKey · = (.defInterface, none)) ++
      rowsAt ops none [.importModule, .typeAlias, .call] := by
    simp only [nodeRows, rowsAt, nodeOpcodes, List.map_cons, List.map_nil, List.flatMap_cons,
      List.flatMap_nil, List.append_nil, List.append_assoc]
  refine Eq.trans ?_ (filter_nodeRows ops (o, none))
  have hclass : ∀ d, (emitClass (classNode ops ops d)).filter (orderKey · = (o, none)) =
      [CoreOp.defClass d.1.raw d.2].filter (orderKey · = (o, none)) := fun d => by
    simp [filter_emitClass_of_ne hvalid d (k := (o, none)) (by simp)]
  have hinterface : ∀ d, (emitInterface (interfaceNode ops ops d)).filter
      (orderKey · = (o, none)) =
      [CoreOp.defInterface d.1.raw d.2].filter (orderKey · = (o, none)) := fun d => by
    simp [filter_emitInterface_of_ne hvalid d (k := (o, none)) (by simp)]
  rw [hnode, hierarchicalToIr_project, ← classDecl_row.map_eq, ← interfaceDecl_row.map_eq]
  simp only [List.filter_append, List.filter_flatMap, hclass, hinterface]
  simp only [← List.filter_flatMap, ← List.map_eq_flatMap]

/-- A row of a node comes from the classes and the interfaces. -/
theorem filter_hierarchicalToIr (ops : List CoreOp) (o : DeltaOpcode) (target : Target) :
    (hierarchicalToIr (project ops)).filter (orderKey · = (o, some target)) =
      ((ops.filterMap classDecl).flatMap fun d =>
        (emitClass (classNode ops ops d)).filter (orderKey · = (o, some target))) ++
      ((ops.filterMap interfaceDecl).flatMap fun d =>
        (emitInterface (interfaceNode ops ops d)).filter (orderKey · = (o, some target))) := by
  rw [hierarchicalToIr_project]
  simp only [List.filter_append, List.filter_flatMap]
  rw [filter_rowsAt_of_ne (by simp), List.append_nil]

theorem class_row (hvalid : Valid ops) (o : DeltaOpcode) (c : String) :
    (hierarchicalToIr (project ops)).filter (orderKey · = (o, some (.class c))) =
      ops.filter (orderKey · = (o, some (.class c))) := by
  have hother : ∀ d : ClassId × String, d.1.raw ≠ c →
      (emitClass (classNode ops ops d)).filter (orderKey · = (o, some (.class c))) = [] := by
    intro d hd
    rw [filter_emitClass_of_ne hvalid d (by simpa using hd), filter_defClass_of_some rfl]
    simp
  have hinterfaces : ((ops.filterMap interfaceDecl).flatMap fun d =>
      (emitInterface (interfaceNode ops ops d)).filter
        (orderKey · = (o, some (.class c)))) = [] := by
    refine List.flatMap_eq_nil_iff.mpr fun d _ => ?_
    rw [filter_emitInterface_of_ne hvalid d (by simp), filter_defInterface_of_some rfl]
    simp
  rw [filter_hierarchicalToIr, hinterfaces, List.append_nil]
  by_cases hc : Declares ops .class c
  · obtain ⟨d, hd, hdc⟩ := List.mem_map.mp (mem_classOwners.mpr hc)
    rw [flatMap_only (nodup_classes hvalid) hd fun y _ hne => hother y fun h => hne ?_]
    · rw [← show d.1.raw = c by rw [hdc]]
      exact filter_emitClass hvalid d o
    · rw [hdc, ← h]
  · rw [row_undeclared hvalid (.class c) hc]
    refine List.flatMap_eq_nil_iff.mpr fun d hd => hother d fun h => hc ?_
    exact mem_classOwners.mp (List.mem_map.mpr ⟨d, hd, by rw [← h]⟩)

theorem interface_row (hvalid : Valid ops) (o : DeltaOpcode) (i : String) :
    (hierarchicalToIr (project ops)).filter (orderKey · = (o, some (.interface i))) =
      ops.filter (orderKey · = (o, some (.interface i))) := by
  have hother : ∀ d : InterfaceId × String, d.1.raw ≠ i →
      (emitInterface (interfaceNode ops ops d)).filter
        (orderKey · = (o, some (.interface i))) = [] := by
    intro d hd
    rw [filter_emitInterface_of_ne hvalid d (by simpa using hd), filter_defInterface_of_some rfl]
    simp
  have hclasses : ((ops.filterMap classDecl).flatMap fun d =>
      (emitClass (classNode ops ops d)).filter (orderKey · = (o, some (.interface i)))) = [] := by
    refine List.flatMap_eq_nil_iff.mpr fun d _ => ?_
    rw [filter_emitClass_of_ne hvalid d (by simp), filter_defClass_of_some rfl]
    simp
  rw [filter_hierarchicalToIr, hclasses, List.nil_append]
  by_cases hi : Declares ops .interface i
  · obtain ⟨d, hd, hdi⟩ := List.mem_map.mp (mem_interfaceOwners.mpr hi)
    rw [flatMap_only (nodup_interfaces hvalid) hd fun y _ hne => hother y fun h => hne ?_]
    · rw [← show d.1.raw = i by rw [hdi]]
      exact filter_emitInterface hvalid d o
    · rw [hdi, ← h]
  · rw [row_undeclared hvalid (.interface i) hi]
    refine List.flatMap_eq_nil_iff.mpr fun d hd => hother d fun h => hi ?_
    exact mem_interfaceOwners.mp (List.mem_map.mpr ⟨d, hd, by rw [← h]⟩)

/-- The members of one kind, by the operations that declare them. -/
structure Members {ο κ : Type} (ops : List CoreOp) (ownerDecl : CoreOp → Option (ο × String))
    (memberDecl : ο → CoreOp → Option (κ × String)) (raw : κ → String)
    (declaration : ο → κ × String → CoreOp) : Prop where
  owners : ((ops.filterMap ownerDecl).map Prod.fst).Nodup
  members : ∀ o, ((ops.filterMap (memberDecl o)).map Prod.fst).Nodup
  raw_inj : Function.Injective raw
  mem_iff : ∀ {o e}, e ∈ ops.filterMap (memberDecl o) ↔ declaration o e ∈ ops
  owner : ∀ {o e}, declaration o e ∈ ops → o ∈ (ops.filterMap ownerDecl).map Prod.fst
  slot : ∀ o e, (declaration o e).slot = some (.definition (raw e.1))
  owner_inj : ∀ {o o' e e'}, declaration o e = declaration o' e' → o = o'

theorem classMethods_members (hvalid : Valid ops) : Members ops classDecl methodDecl MethodId.raw
    fun c e => .defMethod c.raw e.1.raw e.2 where
  owners := nodup_classes hvalid
  members := nodup_methods hvalid
  raw_inj := fun ⟨_⟩ ⟨_⟩ h => congrArg MethodId.mk h
  mem_iff := mem_methodDecl
  owner h := class_of_target hvalid h (by simp [CoreOp.targets])
  slot _ _ := rfl
  owner_inj h := congrArg ClassId.mk (CoreOp.defMethod.inj h).1

theorem classFields_members (hvalid : Valid ops) : Members ops classDecl fieldDecl FieldId.raw
    fun c e => .defField c.raw e.1.raw e.2 where
  owners := nodup_classes hvalid
  members := nodup_fields hvalid
  raw_inj := fun ⟨_⟩ ⟨_⟩ h => congrArg FieldId.mk h
  mem_iff := mem_fieldDecl
  owner h := class_of_target hvalid h (by simp [CoreOp.targets])
  slot _ _ := rfl
  owner_inj h := congrArg ClassId.mk (CoreOp.defField.inj h).1

theorem interfaceMethods_members (hvalid : Valid ops) :
    Members ops interfaceDecl interfaceMethodDecl MethodId.raw
      fun i e => .defInterfaceMethod i.raw e.1.raw e.2 where
  owners := nodup_interfaces hvalid
  members := nodup_interfaceMethods hvalid
  raw_inj := fun ⟨_⟩ ⟨_⟩ h => congrArg MethodId.mk h
  mem_iff := mem_interfaceMethodDecl
  owner h := interface_of_target hvalid h (by simp [CoreOp.targets])
  slot _ _ := rfl
  owner_inj h := congrArg InterfaceId.mk (CoreOp.defInterfaceMethod.inj h).1

theorem interfaceFields_members (hvalid : Valid ops) :
    Members ops interfaceDecl interfaceFieldDecl FieldId.raw
      fun i e => .defInterfaceField i.raw e.1.raw e.2 where
  owners := nodup_interfaces hvalid
  members := nodup_interfaceFields hvalid
  raw_inj := fun ⟨_⟩ ⟨_⟩ h => congrArg FieldId.mk h
  mem_iff := mem_interfaceFieldDecl
  owner h := interface_of_target hvalid h (by simp [CoreOp.targets])
  slot _ _ := rfl
  owner_inj h := congrArg InterfaceId.mk (CoreOp.defInterfaceField.inj h).1

namespace Members

variable {ο κ : Type} {ownerDecl : CoreOp → Option (ο × String)}
  {memberDecl : ο → CoreOp → Option (κ × String)} {raw : κ → String}
  {declaration : ο → κ × String → CoreOp} {row : List CoreOp} {id : String}

/-- The row of a member comes from the one place that declares it. -/
theorem row_declared (h : Members ops ownerDecl memberDecl raw declaration) (hvalid : Valid ops)
    {o : ο} {e : κ × String} (hop : declaration o e ∈ ops) :
    ((ops.filterMap ownerDecl).flatMap fun d => (ops.filterMap (memberDecl d.1)).flatMap fun x =>
      if raw x.1 = raw e.1 then row else []) = row := by
  obtain ⟨d, hd, rfl⟩ := List.mem_map.mp (h.owner hop)
  refine flatMap_member (f := Prod.fst) h.owners hd (h.members d.1)
    (h.mem_iff.mpr hop)
    (fun x => h.raw_inj.eq_iff) fun y _ x hx hraw => ?_
  refine h.owner_inj (hvalid.eq_of_slot (h.mem_iff.mp hx) hop (h.slot _ _) ?_)
  rw [h.slot, hraw]

theorem row_undeclared (h : Members ops ownerDecl memberDecl raw declaration)
    (hnone : ∀ o e, declaration o e ∈ ops → raw e.1 ≠ id) :
    ((ops.filterMap ownerDecl).flatMap fun d => (ops.filterMap (memberDecl d.1)).flatMap fun x =>
      if raw x.1 = id then row else []) = [] :=
  flatMap_member_nil fun d _ x hx => hnone d.1 x (h.mem_iff.mp hx)

end Members

/-- Two operations that declare one identity are the same. -/
theorem raw_ne_of_ne (hvalid : Valid ops) {op : CoreOp} {id : String} (hop : op ∈ ops)
    (hslot : op.slot = some (.definition id)) {op' : CoreOp} {id' : String} (hop' : op' ∈ ops)
    (hslot' : op'.slot = some (.definition id')) (hne : op ≠ op') : id' ≠ id := by
  rintro rfl
  exact hne (hvalid.eq_of_slot hop hop' hslot hslot')

theorem method_row (hvalid : Valid ops) (o : DeltaOpcode) (m : String) :
    (hierarchicalToIr (project ops)).filter (orderKey · = (o, some (.method m))) =
      ops.filter (orderKey · = (o, some (.method m))) := by
  have hclass : ∀ d : ClassId × String,
      (emitClass (classNode ops ops d)).filter (orderKey · = (o, some (.method m))) =
        (ops.filterMap (methodDecl d.1)).flatMap fun e =>
          if e.1.raw = m then ops.filter (orderKey · = (o, some (.method m))) else [] := by
    intro d
    rw [filter_emitClass_of_ne hvalid d (by simp), filter_defClass_of_some rfl]
    simp
  have hinterface : ∀ d : InterfaceId × String,
      (emitInterface (interfaceNode ops ops d)).filter (orderKey · = (o, some (.method m))) =
        (ops.filterMap (interfaceMethodDecl d.1)).flatMap fun e =>
          if e.1.raw = m then ops.filter (orderKey · = (o, some (.method m))) else [] := by
    intro d
    rw [filter_emitInterface_of_ne hvalid d (by simp), filter_defInterface_of_some rfl]
    simp
  have hclasses := classMethods_members hvalid
  have hinterfaces := interfaceMethods_members hvalid
  rw [filter_hierarchicalToIr]
  simp only [hclass, hinterface]
  by_cases hm : Declares ops .method m
  · obtain ⟨op, hop, hdef⟩ := hm
    have hslot := CoreOp.slot_of_definition hdef
    cases op with
    | defMethod c id name =>
        cases hdef
        rw [hinterfaces.row_undeclared, List.append_nil]
        · exact hclasses.row_declared hvalid (o := ⟨c⟩) (e := (⟨m⟩, name)) hop
        · exact fun i e he => raw_ne_of_ne hvalid hop hslot he rfl (by simp)
    | defInterfaceMethod i id name =>
        cases hdef
        rw [hclasses.row_undeclared, List.nil_append]
        · exact hinterfaces.row_declared hvalid (o := ⟨i⟩) (e := (⟨m⟩, name)) hop
        · exact fun c e he => raw_ne_of_ne hvalid hop hslot he rfl (by simp)
    | _ => cases hdef
  · rw [row_undeclared hvalid (.method m) hm, hclasses.row_undeclared,
      hinterfaces.row_undeclared, List.append_nil]
    · exact fun i e he h => hm ⟨_, he, by rw [CoreOp.definition, h]⟩
    · exact fun c e he h => hm ⟨_, he, by rw [CoreOp.definition, h]⟩

theorem field_row (hvalid : Valid ops) (o : DeltaOpcode) (f : String) :
    (hierarchicalToIr (project ops)).filter (orderKey · = (o, some (.field f))) =
      ops.filter (orderKey · = (o, some (.field f))) := by
  have hclass : ∀ d : ClassId × String,
      (emitClass (classNode ops ops d)).filter (orderKey · = (o, some (.field f))) =
        (ops.filterMap (fieldDecl d.1)).flatMap fun e =>
          if e.1.raw = f then ops.filter (orderKey · = (o, some (.field f))) else [] := by
    intro d
    rw [filter_emitClass_of_ne hvalid d (by simp), filter_defClass_of_some rfl]
    simp
  have hinterface : ∀ d : InterfaceId × String,
      (emitInterface (interfaceNode ops ops d)).filter (orderKey · = (o, some (.field f))) =
        (ops.filterMap (interfaceFieldDecl d.1)).flatMap fun e =>
          if e.1.raw = f then ops.filter (orderKey · = (o, some (.field f))) else [] := by
    intro d
    rw [filter_emitInterface_of_ne hvalid d (by simp), filter_defInterface_of_some rfl]
    simp
  have hclasses := classFields_members hvalid
  have hinterfaces := interfaceFields_members hvalid
  rw [filter_hierarchicalToIr]
  simp only [hclass, hinterface]
  by_cases hf : Declares ops .field f
  · obtain ⟨op, hop, hdef⟩ := hf
    have hslot := CoreOp.slot_of_definition hdef
    cases op with
    | defField c id name =>
        cases hdef
        rw [hinterfaces.row_undeclared, List.append_nil]
        · exact hclasses.row_declared hvalid (o := ⟨c⟩) (e := (⟨f⟩, name)) hop
        · exact fun i e he => raw_ne_of_ne hvalid hop hslot he rfl (by simp)
    | defInterfaceField i id name =>
        cases hdef
        rw [hclasses.row_undeclared, List.nil_append]
        · exact hinterfaces.row_declared hvalid (o := ⟨i⟩) (e := (⟨f⟩, name)) hop
        · exact fun c e he => raw_ne_of_ne hvalid hop hslot he rfl (by simp)
    | _ => cases hdef
  · rw [row_undeclared hvalid (.field f) hf, hclasses.row_undeclared,
      hinterfaces.row_undeclared, List.append_nil]
    · exact fun i e he h => hf ⟨_, he, by rw [CoreOp.definition, h]⟩
    · exact fun c e he h => hf ⟨_, he, by rw [CoreOp.definition, h]⟩

/-- Flattening the projection of a valid stream keeps every row, in its order. -/
theorem sameRows_hierarchicalToIr (hvalid : Valid ops) :
    SameRows orderKey (hierarchicalToIr (project ops)) ops := by
  rintro ⟨o, target⟩
  cases target with
  | none => exact file_row hvalid o
  | some target =>
      cases target with
      | «class» c => exact class_row hvalid o c
      | interface i => exact interface_row hvalid o i
      | method m => exact method_row hvalid o m
      | field f => exact field_row hvalid o f

theorem project_congr {ops' : List CoreOp} (h : SameRows orderKey ops ops') :
    project ops = project ops' := by
  have hmethod : methodNode ops = methodNode ops' := funext fun d => by
    simp only [methodNode, (paramFact_row _).filterMap_eq h, (returnFact_row _).filterMap_eq h,
      (modifiersFact_row _).filterMap_eq h, (summaryFact_row _).filterMap_eq h,
      (patternFact_row _).filterMap_eq h, (flagsFact_row _).filterMap_eq h,
      (bodyFact_row _).filterMap_eq h, (controlFact_row _).filterMap_eq h,
      (flowFact_row _).filterMap_eq h, (effectFact_row _).filterMap_eq h,
      (contextFact_row _).filterMap_eq h, (methodPattern_row _).filterMap_eq h]
  have hfield : fieldNode ops = fieldNode ops' := funext fun d => by
    simp only [fieldNode, (fieldTypeFact_row _).filterMap_eq h]
  have hclass : classNode ops ops = classNode ops' ops' := funext fun d => by
    simp only [classNode, hmethod, hfield, (methodDecl_row _).filterMap_eq h,
      (fieldDecl_row _).filterMap_eq h, (classModifiersFact_row _).filterMap_eq h,
      (classFlagsFact_row _).filterMap_eq h, (extendsFact_row _).filterMap_eq h,
      (baseTypeFact_row _).filterMap_eq h, (implementsFact_row _).filterMap_eq h,
      (injectsFact_row _).filterMap_eq h, (classPattern_row _).filterMap_eq h]
  have hinterface : interfaceNode ops ops = interfaceNode ops' ops' := funext fun d => by
    simp only [interfaceNode, hmethod, hfield, (interfaceMethodDecl_row _).filterMap_eq h,
      (interfaceFieldDecl_row _).filterMap_eq h, (interfaceModifiersFact_row _).filterMap_eq h,
      (interfaceExtendsFact_row _).filterMap_eq h]
  simp only [project, hclass, hinterface, classDecl_row.filterMap_eq h,
    interfaceDecl_row.filterMap_eq h, importRow_row.filterMap_eq h,
    typeAliasRow_row.filterMap_eq h, callRow_row.filterMap_eq h]

/-- Projecting and flattening an accepted stream permutes it within its rows, and a second
projection finds the same hierarchy. -/
theorem hierarchicalToIr_tryIrToHierarchical (ir : CompiledIR)
    (haccepted : ∃ index, validateIdentityGraph ir = .ok index) :
    ∃ hir, tryIrToHierarchical ir = pure hir ∧
      (hierarchicalToIr hir).Perm ir.instructions ∧
      (∀ row, (hierarchicalToIr hir).filter (orderKey · = row) =
        ir.instructions.filter (orderKey · = row)) ∧
      tryIrToHierarchical { ir with instructions := hierarchicalToIr hir } = pure hir := by
  have hvalid := validateIdentityGraph_iff.mp haccepted
  have hrows := sameRows_hierarchicalToIr hvalid
  refine ⟨_, tryIrToHierarchical_eq ir hvalid, hrows.perm, hrows, ?_⟩
  rw [tryIrToHierarchical_eq _ (hvalid.perm hrows.perm.symm), project_congr hrows]

theorem hierarchicalToIr_tryIrToHierarchical_pending :
    ∃ hir, tryIrToHierarchical
        ⟨"α1", [.ret "M1" "u8", .defMethod "C1" "M1" "run", .defClass "C1" "A"], 1⟩ = pure hir ∧
      (hierarchicalToIr hir).Perm
        [.ret "M1" "u8", .defMethod "C1" "M1" "run", .defClass "C1" "A"] ∧
      (∀ row, (hierarchicalToIr hir).filter (orderKey · = row) =
        [.ret "M1" "u8", .defMethod "C1" "M1" "run", .defClass "C1" "A"].filter
          (orderKey · = row)) ∧
      tryIrToHierarchical ⟨"α1", hierarchicalToIr hir, 1⟩ = pure hir :=
  hierarchicalToIr_tryIrToHierarchical
    ⟨"α1", [.ret "M1" "u8", .defMethod "C1" "M1" "run", .defClass "C1" "A"], 1⟩ ⟨_, rfl⟩

end Hierarchical
end CleanCtx
