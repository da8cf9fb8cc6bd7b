import CleanCtx.Ir.HierarchicalRoundTrip

/-!
Owners in the hierarchical form. Every operation read off the tree stands under
a path of nodes, and the path depends on the declarations of the stream only,
never on the position of an instruction.
-/
namespace CleanCtx
namespace Hierarchical

/-- The nodes that enclose an operation, outermost first. -/
abbrev Path := List Target

def placeAt (path : Path) (ops : List CoreOp) : List (Path × CoreOp) := ops.map (path, ·)

/-- The operations of a class, each under the nodes that hold it. -/
def classPlacements (node : ClassNode) : List (Path × CoreOp) :=
  (if node.synthetic then [] else
    placeAt [] [.defClass node.id node.name] ++
      placeAt [.class node.id] (emitClassFacts node)) ++
  node.fields.flatMap (fun field =>
    placeAt [.class node.id] [.defField node.id field.id field.name] ++
      placeAt [.class node.id, .field field.id] (emitFieldFacts field)) ++
  node.methods.flatMap (fun method =>
    placeAt [.class node.id] [.defMethod node.id method.id method.name] ++
      placeAt [.class node.id, .method method.id] (emitClassMethodFacts method)) ++
  placeAt [.class node.id] (if node.synthetic then [] else node.patterns.map emitPattern)

def interfacePlacements (node : InterfaceNode) : List (Path × CoreOp) :=
  placeAt [] [.defInterface node.id node.name] ++
  placeAt [.interface node.id] (emitInterfaceFacts node) ++
  node.fields.flatMap (fun field =>
    placeAt [.interface node.id] [.defInterfaceField node.id field.id field.name] ++
      placeAt [.interface node.id, .field field.id] (emitFieldFacts field)) ++
  node.methods.flatMap (fun method =>
    placeAt [.interface node.id] [.defInterfaceMethod node.id method.id method.name] ++
      placeAt [.interface node.id, .method method.id] (emitMethodFacts method))

/-- The tree read off with the path to each operation. -/
def placements (hir : HierarchicalIR) : List (Path × CoreOp) :=
  hir.classes.flatMap classPlacements ++ hir.interfaces.flatMap interfacePlacements ++
  placeAt [] (hir.imports.flatMap emitImport) ++
  placeAt [] (hir.typeAliases.flatMap emitTypeAlias) ++ placeAt [] (hir.calls.map emitCall)

@[simp] theorem map_snd_placeAt (path : Path) (ops : List CoreOp) :
    (placeAt path ops).map Prod.snd = ops := by
  simp [placeAt]

theorem mem_placeAt {path : Path} {ops : List CoreOp} {x : Path × CoreOp} :
    x ∈ placeAt path ops ↔ x.1 = path ∧ x.2 ∈ ops := by
  obtain ⟨p, op⟩ := x
  simp [placeAt, and_comm, eq_comm]

theorem map_snd_placements (hir : HierarchicalIR) :
    (placements hir).map Prod.snd = hierarchicalToIr hir := by
  have hclass : ∀ node, (classPlacements node).map Prod.snd = emitClass node := by
    intro node
    unfold classPlacements emitClass
    split <;> simp [List.map_flatMap]
  have hinterface : ∀ node, (interfacePlacements node).map Prod.snd = emitInterface node := by
    intro node
    simp [interfacePlacements, emitInterface, List.map_flatMap]
  simp [placements, hierarchicalToIr, List.map_flatMap, hclass, hinterface]

/-- The path to a node of a stream: a member stands under the owner that declares it. -/
inductive Leads (ops : List CoreOp) : Option Target → Path → Prop
  | file : Leads ops none []
  | class (c : String) : Leads ops (some (.class c)) [.class c]
  | interface (i : String) : Leads ops (some (.interface i)) [.interface i]
  | classMethod {c m name : String} (h : .defMethod c m name ∈ ops) :
      Leads ops (some (.method m)) [.class c, .method m]
  | classField {c f name : String} (h : .defField c f name ∈ ops) :
      Leads ops (some (.field f)) [.class c, .field f]
  | interfaceMethod {i m name : String} (h : .defInterfaceMethod i m name ∈ ops) :
      Leads ops (some (.method m)) [.interface i, .method m]
  | interfaceField {i f name : String} (h : .defInterfaceField i f name ∈ ops) :
      Leads ops (some (.field f)) [.interface i, .field f]

variable {ops ops' : List CoreOp}

theorem Leads.perm (h : ops.Perm ops') {target : Option Target} {path : Path}
    (hleads : Leads ops target path) : Leads ops' target path := by
  cases hleads with
  | file => exact .file
  | «class» c => exact .class c
  | interface i => exact .interface i
  | classMethod hmem => exact .classMethod (h.mem_iff.mp hmem)
  | classField hmem => exact .classField (h.mem_iff.mp hmem)
  | interfaceMethod hmem => exact .interfaceMethod (h.mem_iff.mp hmem)
  | interfaceField hmem => exact .interfaceField (h.mem_iff.mp hmem)

/-- In a valid stream one path leads to a node. -/
theorem Leads.unique (hvalid : Valid ops) {target : Option Target} {path path' : Path}
    (h : Leads ops target path) (h' : Leads ops target path') : path = path' := by
  cases h with
  | file | «class» c | interface i =>
      cases h'
      rfl
  | classMethod hdef =>
      cases h' with
      | classMethod hdef' =>
          cases hvalid.eq_of_slot hdef hdef' rfl rfl
          rfl
      | interfaceMethod hdef' => cases hvalid.eq_of_slot hdef hdef' rfl rfl
  | classField hdef =>
      cases h' with
      | classField hdef' =>
          cases hvalid.eq_of_slot hdef hdef' rfl rfl
          rfl
      | interfaceField hdef' => cases hvalid.eq_of_slot hdef hdef' rfl rfl
  | interfaceMethod hdef =>
      cases h' with
      | classMethod hdef' => cases hvalid.eq_of_slot hdef hdef' rfl rfl
      | interfaceMethod hdef' =>
          cases hvalid.eq_of_slot hdef hdef' rfl rfl
          rfl
  | interfaceField hdef =>
      cases h' with
      | classField hdef' => cases hvalid.eq_of_slot hdef hdef' rfl rfl
      | interfaceField hdef' =>
          cases hvalid.eq_of_slot hdef hdef' rfl rfl
          rfl

theorem filingTarget_of_mem_rowsAt {target : Option Target} {opcodes : List DeltaOpcode}
    {op : CoreOp} (h : op ∈ rowsAt ops target opcodes) : filingTarget op = target := by
  obtain ⟨row, hrow, hop⟩ := List.mem_flatMap.mp h
  obtain ⟨o, -, rfl⟩ := List.mem_map.mp hrow
  exact congrArg Prod.snd (of_decide_eq_true (List.mem_filter.mp hop).2)

/-- Operations filed under one node, placed where the node is. -/
theorem leads_of_placeAt {target : Option Target} {path : Path} {facts : List CoreOp}
    (hleads : Leads ops target path) (hfacts : ∀ op ∈ facts, filingTarget op = target) :
    ∀ x ∈ placeAt path facts, Leads ops (filingTarget x.2) x.1 := by
  intro x hx
  obtain ⟨hpath, hop⟩ := mem_placeAt.mp hx
  rwa [hpath, hfacts x.2 hop]

theorem leads_of_append {l l' : List (Path × CoreOp)}
    (h : ∀ x ∈ l, Leads ops (filingTarget x.2) x.1)
    (h' : ∀ x ∈ l', Leads ops (filingTarget x.2) x.1) :
    ∀ x ∈ l ++ l', Leads ops (filingTarget x.2) x.1 := fun x hx =>
  (List.mem_append.mp hx).elim (h x) (h' x)

theorem leads_of_flatMap {α : Type} {l : List α} {f : α → List (Path × CoreOp)}
    (h : ∀ a ∈ l, ∀ x ∈ f a, Leads ops (filingTarget x.2) x.1) :
    ∀ x ∈ l.flatMap f, Leads ops (filingTarget x.2) x.1 := by
  intro x hx
  obtain ⟨a, ha, hxa⟩ := List.mem_flatMap.mp hx
  exact h a ha x hxa

theorem leads_of_declaration {op : CoreOp} {path : Path} (h : Leads ops (filingTarget op) path) :
    ∀ x ∈ placeAt path [op], Leads ops (filingTarget x.2) x.1 :=
  leads_of_placeAt h fun _ hop => by rw [List.mem_singleton.mp hop]

theorem classPlacements_leads (hvalid : Valid ops) (d : ClassId × String) :
    ∀ x ∈ classPlacements (classNode ops ops d), Leads ops (filingTarget x.2) x.1 := by
  have hpatterns : (classNode ops ops d).patterns.map emitPattern =
      rowsAt ops (some (.class d.1.raw)) [.pattern] := by
    simp [classNode, (classPattern_row d.1.raw).map_eq, rowsAt]
  rw [classPlacements, hpatterns, emitClassFacts_classNode hvalid]
  refine leads_of_append (leads_of_append (leads_of_append (leads_of_append ?_ ?_) ?_) ?_) ?_
  · exact leads_of_declaration .file
  · exact leads_of_placeAt (.class _) fun _ => filingTarget_of_mem_rowsAt
  · refine leads_of_flatMap fun field hfield => ?_
    obtain ⟨e, he, rfl⟩ := List.mem_map.mp hfield
    rw [emitFieldFacts_fieldNode hvalid]
    exact leads_of_append (leads_of_declaration (.class _))
      (leads_of_placeAt (.classField (mem_fieldDecl.mp he)) fun _ => filingTarget_of_mem_rowsAt)
  · refine leads_of_flatMap fun method hmethod => ?_
    obtain ⟨e, he, rfl⟩ := List.mem_map.mp hmethod
    rw [emitClassMethodFacts_eq, emitMethodFacts_methodNode hvalid]
    exact leads_of_append (leads_of_declaration (.class _))
      (leads_of_placeAt (.classMethod (mem_methodDecl.mp he)) fun _ => filingTarget_of_mem_rowsAt)
  · exact leads_of_placeAt (.class _) fun _ => filingTarget_of_mem_rowsAt

theorem interfacePlacements_leads (hvalid : Valid ops) (d : InterfaceId × String) :
    ∀ x ∈ interfacePlacements (interfaceNode ops ops d), Leads ops (filingTarget x.2) x.1 := by
  rw [interfacePlacements, emitInterfaceFacts_interfaceNode]
  refine leads_of_append (leads_of_append (leads_of_append ?_ ?_) ?_) ?_
  · exact leads_of_declaration .file
  · exact leads_of_placeAt (.interface _) fun _ => filingTarget_of_mem_rowsAt
  · refine leads_of_flatMap fun field hfield => ?_
    obtain ⟨e, he, rfl⟩ := List.mem_map.mp hfield
    rw [emitFieldFacts_fieldNode hvalid]
    exact leads_of_append (leads_of_declaration (.interface _))
      (leads_of_placeAt (.interfaceField (mem_interfaceFieldDecl.mp he))
        fun _ => filingTarget_of_mem_rowsAt)
  · refine leads_of_flatMap fun method hmethod => ?_
    obtain ⟨e, he, rfl⟩ := List.mem_map.mp hmethod
    rw [emitMethodFacts_methodNode hvalid]
    exact leads_of_append (leads_of_declaration (.interface _))
      (leads_of_placeAt (.interfaceMethod (mem_interfaceMethodDecl.mp he))
        fun _ => filingTarget_of_mem_rowsAt)

/-- The whole tree of a valid stream is placed as its declarations say. -/
theorem placements_leads (hvalid : Valid ops) :
    ∀ x ∈ placements (project ops), Leads ops (filingTarget x.2) x.1 := by
  have htables : ∀ op ∈ rowsAt ops none [.importModule, .typeAlias, .call],
      filingTarget op = none := fun _ => filingTarget_of_mem_rowsAt
  simp only [rowsAt, List.map_cons, List.map_nil, List.flatMap_cons, List.flatMap_nil,
    List.append_nil, List.mem_append] at htables
  simp only [placements, project, importRow_row.flatMap_eq, typeAliasRow_row.flatMap_eq,
    callRow_row.map_eq]
  refine leads_of_append (leads_of_append (leads_of_append (leads_of_append ?_ ?_) ?_) ?_) ?_
  · refine leads_of_flatMap fun node hnode => ?_
    obtain ⟨d, -, rfl⟩ := List.mem_map.mp hnode
    exact classPlacements_leads hvalid d
  · refine leads_of_flatMap fun node hnode => ?_
    obtain ⟨d, -, rfl⟩ := List.mem_map.mp hnode
    exact interfacePlacements_leads hvalid d
  · exact leads_of_placeAt .file fun op hop => htables op (.inl hop)
  · exact leads_of_placeAt .file fun op hop => htables op (.inr (.inl hop))
  · exact leads_of_placeAt .file fun op hop => htables op (.inr (.inr hop))

/-- Rearranging a valid stream leaves every operation under its owner. -/
theorem placements_perm (h : ops.Perm ops') (hvalid : Valid ops) :
    (placements (project ops)).Perm (placements (project ops')) := by
  have hvalid' := hvalid.perm h
  refine Lists.perm_of_map_snd
    (R := fun path op => Leads ops (filingTarget op) path) (Leads.unique hvalid)
    (placements_leads hvalid) (fun x hx => (placements_leads hvalid' x hx).perm h.symm) ?_
  rw [map_snd_placements, map_snd_placements]
  exact (sameRows_hierarchicalToIr hvalid).perm.trans
    (h.trans (sameRows_hierarchicalToIr hvalid').perm.symm)

/-- The tree holds the operations of the stream, each as often as it occurs there and under the
nodes that its operands and the declarations of the stream name. -/
structure PlacesAll (ops : List CoreOp) (hir : HierarchicalIR) : Prop where
  rows : ((placements hir).map Prod.snd).Perm ops
  owners : ∀ x ∈ placements hir, Leads ops (filingTarget x.2) x.1

theorem placesAll_project (hvalid : Valid ops) : PlacesAll ops (project ops) where
  rows := by
    rw [map_snd_placements]
    exact (sameRows_hierarchicalToIr hvalid).perm
  owners := placements_leads hvalid

/-- The position of an instruction has no authority: a rearranged stream is accepted exactly
when the stream is, and the projections of both have every operation under the owner that it
names, which is the same in both. -/
theorem validateIdentityGraph_perm (ir : CompiledIR) (ops : List CoreOp)
    (h : ops.Perm ir.instructions) :
    ((∃ index, validateIdentityGraph ir = .ok index) ↔
      ∃ index, validateIdentityGraph { ir with instructions := ops } = .ok index) ∧
    ((∃ index, validateIdentityGraph ir = .ok index) →
      ∃ hir hir', tryIrToHierarchical ir = pure hir ∧
        tryIrToHierarchical { ir with instructions := ops } = pure hir' ∧
        PlacesAll ir.instructions hir ∧ PlacesAll ops hir' ∧
        (placements hir).Perm (placements hir')) := by
  rw [validateIdentityGraph_iff, validateIdentityGraph_iff]
  refine ⟨⟨fun hvalid => hvalid.perm h.symm, fun hvalid => hvalid.perm h⟩, fun hvalid => ?_⟩
  have hvalid' : Valid ops := hvalid.perm h.symm
  exact ⟨_, _, tryIrToHierarchical_eq ir hvalid, tryIrToHierarchical_eq _ hvalid',
    placesAll_project hvalid, placesAll_project hvalid', placements_perm h.symm hvalid⟩

/-- A method with a signature, a modifier and a body, declared before and after all of them. -/
def memberFacts : List CoreOp :=
  [.param "M1" "P1" "u8" "n", .methodModifiers "M1" [.static], .body "M1" "{}" none none]

def declarations : List CoreOp := [.defClass "C1" "A", .defMethod "C1" "M1" "run"]

def declaredFirst : CompiledIR :=
  { fileId := "α1", instructions := declarations ++ memberFacts, version := 1 }

theorem validateIdentityGraph_perm_swapped :
    ∃ hir hir', tryIrToHierarchical declaredFirst = pure hir ∧
      tryIrToHierarchical { declaredFirst with instructions := memberFacts ++ declarations } =
        pure hir' ∧
      PlacesAll declaredFirst.instructions hir ∧ PlacesAll (memberFacts ++ declarations) hir' ∧
      (placements hir).Perm (placements hir') :=
  (validateIdentityGraph_perm declaredFirst (memberFacts ++ declarations)
    List.perm_append_comm).2 ⟨_, rfl⟩

end Hierarchical
end CleanCtx
