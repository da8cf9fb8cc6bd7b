import CleanCtx.Library.Shelves
import CleanCtx.Ir.HierarchicalProjection

/-!
The first pass of the projection places every declaration of the processed
instructions under its owner, in stream order, whether the owner comes first or
not; what waits in the queues belongs to owners that are still to come.
-/
namespace CleanCtx
namespace Hierarchical

namespace MemberKind

variable {ν μ κ lo δ : Type} [DecidableEq κ] (kind : MemberKind ν μ κ lo)

theorem place_ok {decls : List δ} (g g' : δ → ν) {i : Nat} {d : δ} {decl : κ × String}
    (locations : HashMap κ lo) (hd : decls[i]? = some d)
    (hmatch : g' d =
      kind.withMembers (g d) (kind.members (g d) ++ [kind.build decl.1 decl.2]))
    (hother : ∀ j x, j ≠ i → decls[j]? = some x → g x = g' x) :
    kind.place i (decls.map g, locations) decl =
      .ok (decls.map g',
        fileFrom (kind.locate i) (kind.members (g d)).length [decl.1] locations) := by
  have hget : (decls.map g)[i]? = some (g d) := by rw [List.getElem?_map, hd]; rfl
  have hlt : i < (decls.map g).length := (List.getElem?_eq_some_iff.mp hget).1
  simp only [place, Vec.index, hget, Rust.ok_bind, Vec.set, if_pos hlt,
    Lists.set_map hd hmatch.symm hother]
  simp [fileFrom]

/-- The queued members of a new last node are filed in their order. -/
theorem drain_ok (front : List ν) (node : ν) (decls : List (κ × String))
    (locations : HashMap κ lo) :
    decls.foldlM (kind.place front.length) (front ++ [node], locations) =
      .ok (front ++ [kind.withMembers node
          (kind.members node ++ decls.map fun d => kind.build d.1 d.2)],
        fileFrom (kind.locate front.length) (kind.members node).length (decls.map Prod.fst)
          locations) := by
  induction decls generalizing node locations with
  | nil => simp [kind.withMembers_members, fileFrom, pure, Except.pure]
  | cons d decls ih =>
      have hplace : kind.place front.length (front ++ [node], locations) d =
          .ok (front ++ [kind.withMembers node (kind.members node ++ [kind.build d.1 d.2])],
            locations.insert d.1 (kind.locate front.length (kind.members node).length)) := by
        simp [place]
      rw [List.foldlM_cons, hplace, Rust.ok_bind, ih]
      simp [kind.members_withMembers, kind.withMembers_withMembers, fileFrom_cons]

end MemberKind

theorem filterMap_concat {α β : Type} (f : α → Option β) (l : List α) (a : α) :
    (l ++ [a]).filterMap f = l.filterMap f ++ (f a).toList := by
  cases h : f a <;> simp [h]

/-- One half of the tree: owners with their two families of members. -/
structure Side (ν ο : Type) where
  ownerDecl : CoreOp → Option (ο × String)
  methodDecl : ο → CoreOp → Option (MethodId × String)
  fieldDecl : ο → CoreOp → Option (FieldId × String)
  methods : MemberKind ν MethodNode MethodId MethodLocation
  fields : MemberKind ν FieldNode FieldId FieldLocation
  shell : ο × String → List MethodNode → List FieldNode → ν
  methods_members : ∀ d ms fs, methods.members (shell d ms fs) = ms
  methods_withMembers : ∀ d ms fs ms', methods.withMembers (shell d ms fs) ms' = shell d ms' fs
  fields_members : ∀ d ms fs, fields.members (shell d ms fs) = fs
  fields_withMembers : ∀ d ms fs fs', fields.withMembers (shell d ms fs) fs' = shell d ms fs'

namespace Side

variable {ν ο : Type} (S : Side ν ο)

def owners (ops : List CoreOp) : List ο := (ops.filterMap S.ownerDecl).map Prod.fst

def methodsOf (ops : List CoreOp) (o : ο) : List (MethodId × String) :=
  ops.filterMap (S.methodDecl o)

def fieldsOf (ops : List CoreOp) (o : ο) : List (FieldId × String) :=
  ops.filterMap (S.fieldDecl o)

def node (ops : List CoreOp) (d : ο × String) : ν :=
  S.shell d ((S.methodsOf ops d.1).map fun e => S.methods.build e.1 e.2)
    ((S.fieldsOf ops d.1).map fun e => S.fields.build e.1 e.2)

/-- The operation declares nothing on this side. -/
structure Silent (op : CoreOp) : Prop where
  owner : S.ownerDecl op = none
  method : ∀ o, S.methodDecl o op = none
  field : ∀ o, S.fieldDecl o op = none

section Concat

variable {S} (done : List CoreOp) {op : CoreOp}

theorem owners_concat (h : S.ownerDecl op = none) : S.owners (done ++ [op]) = S.owners done := by
  simp [owners, h]

theorem methodsOf_concat (h : ∀ o, S.methodDecl o op = none) :
    S.methodsOf (done ++ [op]) = S.methodsOf done := by
  funext o
  simp [methodsOf, h]

theorem fieldsOf_concat (h : ∀ o, S.fieldDecl o op = none) :
    S.fieldsOf (done ++ [op]) = S.fieldsOf done := by
  funext o
  simp [fieldsOf, h]

end Concat

variable [DecidableEq ο]

/-- One half of the variables of the first pass after the instructions `done`. -/
structure Placed (done : List CoreOp) (nodes : List ν) (locations : HashMap ο Nat)
    (methodLocations : HashMap MethodId MethodLocation)
    (fieldLocations : HashMap FieldId FieldLocation)
    (pendingMethods : HashMap ο (List (MethodId × String)))
    (pendingFields : HashMap ο (List (FieldId × String))) : Prop where
  nodes : nodes = (done.filterMap S.ownerDecl).map (S.node done)
  locations : Indexes id locations (S.owners done)
  methods : Filed S.methods.locate (S.owners done) (S.methodsOf done) methodLocations
    pendingMethods
  fields : Filed S.fields.locate (S.owners done) (S.fieldsOf done) fieldLocations pendingFields

namespace Placed

variable {S} {done : List CoreOp} {nodes : List ν} {locations : HashMap ο Nat}
  {methodLocations : HashMap MethodId MethodLocation}
  {fieldLocations : HashMap FieldId FieldLocation}
  {pendingMethods : HashMap ο (List (MethodId × String))}
  {pendingFields : HashMap ο (List (FieldId × String))}

theorem silent (h : S.Placed done nodes locations methodLocations fieldLocations
      pendingMethods pendingFields) {op : CoreOp} (hop : S.Silent op) :
    S.Placed (done ++ [op]) nodes locations methodLocations fieldLocations
      pendingMethods pendingFields where
  nodes := by
    have hnode : S.node (done ++ [op]) = S.node done := by
      funext d
      rw [node, methodsOf_concat _ hop.method, fieldsOf_concat _ hop.field, node]
    rw [filterMap_concat, hop.owner, hnode, h.nodes]
    simp
  locations := by rw [owners_concat _ hop.owner]; exact h.locations
  methods := by
    rw [owners_concat _ hop.owner, methodsOf_concat _ hop.method]
    exact h.methods
  fields := by
    rw [owners_concat _ hop.owner, fieldsOf_concat _ hop.field]
    exact h.fields

/-- Members of the other side are filed without an effect here. -/
theorem other_method (h : S.Placed done nodes locations methodLocations fieldLocations
      pendingMethods pendingFields) {place : Nat → MethodLocation}
    (hne : ∀ a i j, place a ≠ S.methods.locate i j) (start : Nat) (ks : List MethodId) :
    S.Placed done nodes locations (fileFrom place start ks methodLocations) fieldLocations
      pendingMethods pendingFields :=
  ⟨h.nodes, h.locations, h.methods.other hne start ks, h.fields⟩

theorem other_field (h : S.Placed done nodes locations methodLocations fieldLocations
      pendingMethods pendingFields) {place : Nat → FieldLocation}
    (hne : ∀ a i j, place a ≠ S.fields.locate i j) (start : Nat) (ks : List FieldId) :
    S.Placed done nodes locations methodLocations (fileFrom place start ks fieldLocations)
      pendingMethods pendingFields :=
  ⟨h.nodes, h.locations, h.methods, h.fields.other hne start ks⟩

/-- A method whose owner is present. -/
theorem method_present (h : S.Placed done nodes locations methodLocations fieldLocations
      pendingMethods pendingFields) (op : CoreOp) (decl : MethodId × String)
    (hunique : (S.owners done).Nodup) {i : Nat} {d : ο × String}
    (hd : (done.filterMap S.ownerDecl)[i]? = some d)
    (howner : S.ownerDecl op = none)
    (hmethod : ∀ o, S.methodDecl o op = if o = d.1 then some decl else none)
    (hfield : ∀ o, S.fieldDecl o op = none) :
    ∃ nodes' start, S.methods.place i (nodes, methodLocations) decl =
        .ok (nodes', fileFrom (S.methods.locate i) start [decl.1] methodLocations) ∧
      S.Placed (done ++ [op]) nodes' locations
        (fileFrom (S.methods.locate i) start [decl.1] methodLocations) fieldLocations
        pendingMethods pendingFields := by
  have hmethods : ∀ o, S.methodsOf (done ++ [op]) o =
      S.methodsOf done o ++ if o = d.1 then [decl] else [] := by
    intro o
    rw [methodsOf, filterMap_concat, hmethod]
    split <;> rfl
  have hfields := fieldsOf_concat done hfield
  have hplace := S.methods.place_ok (S.node done) (S.node (done ++ [op])) methodLocations hd
    (show _ = S.methods.withMembers _ (_ ++ [S.methods.build decl.1 decl.2]) by
      simp [node, hmethods, hfields, S.methods_members, S.methods_withMembers])
    (by
      intro j x hj hx
      have hne : x.1 ≠ d.1 := Lists.key_ne_of_ne hunique hd hx hj
      simp [node, hmethods, hfields, hne])
  rw [h.nodes]
  refine ⟨_, _, hplace, ?_⟩
  constructor
  · rw [filterMap_concat, howner]
    simp
  · rw [owners_concat done howner]
    exact h.locations
  · rw [owners_concat done howner, node, S.methods_members, List.length_map]
    refine h.methods.present S.methods.locate_inj ?_ hmethods
    simp [owners, hd]
  · rw [owners_concat done howner, hfields]
    exact h.fields

/-- A field whose owner is present. -/
theorem field_present (h : S.Placed done nodes locations methodLocations fieldLocations
      pendingMethods pendingFields) (op : CoreOp) (decl : FieldId × String)
    (hunique : (S.owners done).Nodup) {i : Nat} {d : ο × String}
    (hd : (done.filterMap S.ownerDecl)[i]? = some d)
    (howner : S.ownerDecl op = none)
    (hmethod : ∀ o, S.methodDecl o op = none)
    (hfield : ∀ o, S.fieldDecl o op = if o = d.1 then some decl else none) :
    ∃ nodes' start, S.fields.place i (nodes, fieldLocations) decl =
        .ok (nodes', fileFrom (S.fields.locate i) start [decl.1] fieldLocations) ∧
      S.Placed (done ++ [op]) nodes' locations methodLocations
        (fileFrom (S.fields.locate i) start [decl.1] fieldLocations)
        pendingMethods pendingFields := by
  have hfields : ∀ o, S.fieldsOf (done ++ [op]) o =
      S.fieldsOf done o ++ if o = d.1 then [decl] else [] := by
    intro o
    rw [fieldsOf, filterMap_concat, hfield]
    split <;> rfl
  have hmethods := methodsOf_concat done hmethod
  have hplace := S.fields.place_ok (S.node done) (S.node (done ++ [op])) fieldLocations hd
    (show _ = S.fields.withMembers _ (_ ++ [S.fields.build decl.1 decl.2]) by
      simp [node, hmethods, hfields, S.fields_members, S.fields_withMembers])
    (by
      intro j x hj hx
      have hne : x.1 ≠ d.1 := Lists.key_ne_of_ne hunique hd hx hj
      simp [node, hmethods, hfields, hne])
  rw [h.nodes]
  refine ⟨_, _, hplace, ?_⟩
  constructor
  · rw [filterMap_concat, howner]
    simp
  · rw [owners_concat done howner]
    exact h.locations
  · rw [owners_concat done howner, hmethods]
    exact h.methods
  · rw [owners_concat done howner, node, S.fields_members, List.length_map]
    refine h.fields.present S.fields.locate_inj ?_ hfields
    simp [owners, hd]

/-- A method whose owner is still to come. -/
theorem method_absent (h : S.Placed done nodes locations methodLocations fieldLocations
      pendingMethods pendingFields) (op : CoreOp) (decl : MethodId × String) {o : ο}
    (ho : o ∉ S.owners done)
    (howner : S.ownerDecl op = none)
    (hmethod : ∀ o', S.methodDecl o' op = if o' = o then some decl else none)
    (hfield : ∀ o', S.fieldDecl o' op = none) :
    S.Placed (done ++ [op]) nodes locations methodLocations fieldLocations
      (pushPending pendingMethods o decl) pendingFields := by
  have hmethods : ∀ o', S.methodsOf (done ++ [op]) o' =
      S.methodsOf done o' ++ if o' = o then [decl] else [] := by
    intro o'
    rw [methodsOf, filterMap_concat, hmethod]
    split <;> rfl
  have hfields := fieldsOf_concat done hfield
  constructor
  · rw [filterMap_concat, howner, Option.toList_none, List.append_nil, h.nodes]
    refine List.map_congr_left fun d hd => ?_
    have hne : d.1 ≠ o := by
      rintro rfl
      exact ho (List.mem_map_of_mem hd)
    simp [node, hmethods, hfields, hne]
  · rw [owners_concat done howner]
    exact h.locations
  · rw [owners_concat done howner]
    exact h.methods.absent ho hmethods
  · rw [owners_concat done howner, hfields]
    exact h.fields

/-- A field whose owner is still to come. -/
theorem field_absent (h : S.Placed done nodes locations methodLocations fieldLocations
      pendingMethods pendingFields) (op : CoreOp) (decl : FieldId × String) {o : ο}
    (ho : o ∉ S.owners done)
    (howner : S.ownerDecl op = none)
    (hmethod : ∀ o', S.methodDecl o' op = none)
    (hfield : ∀ o', S.fieldDecl o' op = if o' = o then some decl else none) :
    S.Placed (done ++ [op]) nodes locations methodLocations fieldLocations
      pendingMethods (pushPending pendingFields o decl) := by
  have hfields : ∀ o', S.fieldsOf (done ++ [op]) o' =
      S.fieldsOf done o' ++ if o' = o then [decl] else [] := by
    intro o'
    rw [fieldsOf, filterMap_concat, hfield]
    split <;> rfl
  have hmethods := methodsOf_concat done hmethod
  constructor
  · rw [filterMap_concat, howner, Option.toList_none, List.append_nil, h.nodes]
    refine List.map_congr_left fun d hd => ?_
    have hne : d.1 ≠ o := by
      rintro rfl
      exact ho (List.mem_map_of_mem hd)
    simp [node, hmethods, hfields, hne]
  · rw [owners_concat done howner]
    exact h.locations
  · rw [owners_concat done howner, hmethods]
    exact h.methods
  · rw [owners_concat done howner]
    exact h.fields.absent ho hfields

/-- An owner arrives: its queued members follow it. -/
theorem owner (h : S.Placed done nodes locations methodLocations fieldLocations
      pendingMethods pendingFields) (op : CoreOp) (d : ο × String) (ho : d.1 ∉ S.owners done)
    (howner : S.ownerDecl op = some d) (hmethod : ∀ o', S.methodDecl o' op = none)
    (hfield : ∀ o', S.fieldDecl o' op = none) :
    ∃ middle nodes' mstart mids fstart fids,
      ((pendingMethods.lookup d.1).getD []).foldlM (S.methods.place nodes.length)
          (nodes ++ [S.shell d [] []], methodLocations) =
        .ok (middle, fileFrom (S.methods.locate nodes.length) mstart mids methodLocations) ∧
      ((pendingFields.lookup d.1).getD []).foldlM (S.fields.place nodes.length)
          (middle, fieldLocations) =
        .ok (nodes', fileFrom (S.fields.locate nodes.length) fstart fids fieldLocations) ∧
      S.Placed (done ++ [op]) nodes' (locations.insert d.1 nodes.length)
        (fileFrom (S.methods.locate nodes.length) mstart mids methodLocations)
        (fileFrom (S.fields.locate nodes.length) fstart fids fieldLocations)
        (pendingMethods.erase d.1) (pendingFields.erase d.1) := by
  have hmethods := methodsOf_concat done hmethod
  have hfields := fieldsOf_concat done hfield
  have howners : S.owners (done ++ [op]) = S.owners done ++ [d.1] := by
    simp [owners, howner]
  have hlength : nodes.length = (S.owners done).length := by
    rw [h.nodes, owners, List.length_map, List.length_map]
  refine ⟨_, _, _, _, _, _, S.methods.drain_ok _ _ _ _, S.fields.drain_ok _ _ _ _, ?_⟩
  rw [h.methods.queued.lookup_getD ho, h.fields.queued.lookup_getD ho]
  simp only [S.methods_members, S.methods_withMembers, S.fields_members, S.fields_withMembers,
    List.nil_append, List.length_nil]
  constructor
  · have hnode : S.node (done ++ [op]) = S.node done := by
      funext x
      rw [node, hmethods, hfields, node]
    rw [filterMap_concat, howner, hnode, List.map_append, h.nodes]
    rfl
  · rw [howners, hlength]
    exact h.locations.concat d.1
  · rw [howners, hmethods, hlength]
    exact h.methods.owner S.methods.locate_inj d.1
  · rw [howners, hfields, hlength]
    exact h.fields.owner S.fields.locate_inj d.1

end Placed
end Side

def classSide : Side ClassNode ClassId where
  ownerDecl := classDecl
  methodDecl := methodDecl
  fieldDecl := fieldDecl
  methods := classMethods
  fields := classFields
  shell d methods fields := { newClass d.1.raw d.2 with methods, fields }
  methods_members _ _ _ := rfl
  methods_withMembers _ _ _ _ := rfl
  fields_members _ _ _ := rfl
  fields_withMembers _ _ _ _ := rfl

def interfaceSide : Side InterfaceNode InterfaceId where
  ownerDecl := interfaceDecl
  methodDecl := interfaceMethodDecl
  fieldDecl := interfaceFieldDecl
  methods := interfaceMethods
  fields := interfaceFields
  shell d methods fields := { newInterface d.1.raw d.2 with methods, fields }
  methods_members _ _ _ := rfl
  methods_withMembers _ _ _ _ := rfl
  fields_members _ _ _ := rfl
  fields_withMembers _ _ _ _ := rfl

/-- The top-level tables after the instructions `done`. -/
structure Rows (done : List CoreOp) (imports typeAliases : List (List String))
    (calls : List HierarchicalCall) : Prop where
  imports : imports = done.filterMap importRow
  typeAliases : typeAliases = done.filterMap typeAliasRow
  calls : calls = done.filterMap callRow

theorem Rows.silent {done : List CoreOp} {imports typeAliases : List (List String)}
    {calls : List HierarchicalCall} (h : Rows done imports typeAliases calls) {op : CoreOp}
    (himport : importRow op = none) (htypeAlias : typeAliasRow op = none)
    (hcall : callRow op = none) : Rows (done ++ [op]) imports typeAliases calls where
  imports := by rw [filterMap_concat, himport, h.imports]; simp
  typeAliases := by rw [filterMap_concat, htypeAlias, h.typeAliases]; simp
  calls := by rw [filterMap_concat, hcall, h.calls]; simp

/-- The variables of the first pass after the instructions `done`. -/
structure Placed (done : List CoreOp) (state : Placement) : Prop where
  classes : classSide.Placed done state.classes state.classLocations state.methodLocations
    state.fieldLocations state.pendingMethods state.pendingFields
  interfaces : interfaceSide.Placed done state.interfaces state.interfaceLocations
    state.methodLocations state.fieldLocations state.pendingInterfaceMethods
    state.pendingInterfaceFields
  rows : Rows done state.imports state.typeAliases state.calls

theorem placed_empty : Placed [] Placement.empty where
  classes := ⟨rfl, Indexes.empty, Filed.empty, Filed.empty⟩
  interfaces := ⟨rfl, Indexes.empty, Filed.empty, Filed.empty⟩
  rows := ⟨rfl, rfl, rfl⟩

/-- A class is found by its identity exactly when it has been declared. -/
theorem findClassById_some {done : List CoreOp} {c : String} {i : Nat}
    (h : findClassById ((done.filterMap classDecl).map (classSide.node done)) c = some i) :
    ∃ d, (done.filterMap classDecl)[i]? = some d ∧ d.1 = ⟨c⟩ := by
  obtain ⟨hlt, hi, -⟩ := List.findIdx?_eq_some_iff_getElem.mp h
  rw [List.length_map] at hlt
  refine ⟨_, List.getElem?_eq_getElem hlt, ?_⟩
  exact congrArg ClassId.mk (by simpa [Side.node, classSide, newClass] using hi)

theorem findClassById_none {done : List CoreOp} {c : String}
    (h : findClassById ((done.filterMap classDecl).map (classSide.node done)) c = none) :
    (⟨c⟩ : ClassId) ∉ classSide.owners done := by
  intro hmem
  obtain ⟨d, hd, hc⟩ := List.mem_map.mp hmem
  have := List.findIdx?_eq_none_iff.mp h (classSide.node done d) (List.mem_map_of_mem hd)
  simp [Side.node, classSide, newClass, hc] at this

theorem named_eq_ite (c : String) (o : ClassId) {α : Type} (a : α) :
    named c o.raw a = if o = ⟨c⟩ then some a else none := by
  obtain ⟨raw⟩ := o
  simp [named, eq_comm]

theorem named_eq_ite' (c : String) (o : InterfaceId) {α : Type} (a : α) :
    named c o.raw a = if o = ⟨c⟩ then some a else none := by
  obtain ⟨raw⟩ := o
  simp [named, eq_comm]

theorem interface_located {done : List CoreOp} {state : Placement} (h : Placed done state)
    {i : String} {idx : Nat} (hfind : state.interfaceLocations.lookup ⟨i⟩ = some idx) :
    ∃ d, (done.filterMap interfaceDecl)[idx]? = some d ∧ d.1 = ⟨i⟩ := by
  obtain ⟨o, hget, ho⟩ := h.interfaces.locations.sound hfind
  obtain ⟨d, hd, rfl⟩ := Option.map_eq_some_iff.mp ((List.getElem?_map ..).symm.trans hget)
  exact ⟨d, hd, ho⟩

theorem interface_absent {done : List CoreOp} {state : Placement} (h : Placed done state)
    {i : String} (hfind : state.interfaceLocations.lookup ⟨i⟩ = none) :
    (⟨i⟩ : InterfaceId) ∉ interfaceSide.owners done := fun hmem =>
  Finmap.lookup_eq_none.mp hfind (h.interfaces.locations.complete hmem)

section Step

variable {done : List CoreOp} {state : Placement}

/-- A class arrives. -/
theorem placeOp_defClass (h : Placed done state) {id name : String}
    (hunique : (classSide.owners (done ++ [.defClass id name])).Nodup) :
    ∃ state', placeOp state (.defClass id name) = .ok state' ∧
      Placed (done ++ [.defClass id name]) state' := by
  have hnew : (⟨id⟩ : ClassId) ∉ classSide.owners done := by
    intro hmem
    simp only [Side.owners, List.filterMap_append, List.map_append] at hunique
    exact (List.nodup_append.mp hunique).2.2 _ hmem ⟨id⟩ (by simp [classSide, classDecl]) rfl
  obtain ⟨middle, nodes, mstart, mids, fstart, fids, hmethods, hfields, hplaced⟩ :=
    h.classes.owner (.defClass id name) (⟨id⟩, name) hnew rfl
      (fun _ => rfl) (fun _ => rfl)
  have hmethods' : ((state.pendingMethods.lookup ⟨id⟩).getD []).foldlM
      (classMethods.place state.classes.length)
      (state.classes ++ [newClass id name], state.methodLocations) = _ := hmethods
  have hfields' : ((state.pendingFields.lookup ⟨id⟩).getD []).foldlM
      (classFields.place state.classes.length) (middle, state.fieldLocations) = _ := hfields
  refine ⟨_, by simp only [placeOp, hmethods', hfields', Rust.ok_bind]; rfl, ?_⟩
  refine ⟨hplaced, ?_, h.rows.silent rfl rfl rfl⟩
  exact ((h.interfaces.silent ⟨rfl, fun _ => rfl, fun _ => rfl⟩).other_method
    (by rintro _ _ _ ⟨⟩) mstart mids).other_field (by rintro _ _ _ ⟨⟩) fstart fids

/-- An interface arrives. -/
theorem placeOp_defInterface (h : Placed done state) {id name : String}
    (hunique : (interfaceSide.owners (done ++ [.defInterface id name])).Nodup) :
    ∃ state', placeOp state (.defInterface id name) = .ok state' ∧
      Placed (done ++ [.defInterface id name]) state' := by
  have hnew : (⟨id⟩ : InterfaceId) ∉ interfaceSide.owners done := by
    intro hmem
    simp only [Side.owners, List.filterMap_append, List.map_append] at hunique
    exact (List.nodup_append.mp hunique).2.2 _ hmem ⟨id⟩
      (by simp [interfaceSide, interfaceDecl]) rfl
  obtain ⟨middle, nodes, mstart, mids, fstart, fids, hmethods, hfields, hplaced⟩ :=
    h.interfaces.owner (.defInterface id name) (⟨id⟩, name) hnew rfl
      (fun _ => rfl) (fun _ => rfl)
  have hmethods' : ((state.pendingInterfaceMethods.lookup ⟨id⟩).getD []).foldlM
      (interfaceMethods.place state.interfaces.length)
      (state.interfaces ++ [newInterface id name], state.methodLocations) = _ := hmethods
  have hfields' : ((state.pendingInterfaceFields.lookup ⟨id⟩).getD []).foldlM
      (interfaceFields.place state.interfaces.length) (middle, state.fieldLocations) = _ := hfields
  refine ⟨_, by simp only [placeOp, hmethods', hfields', Rust.ok_bind]; rfl, ?_⟩
  refine ⟨?_, hplaced, h.rows.silent rfl rfl rfl⟩
  exact ((h.classes.silent ⟨rfl, fun _ => rfl, fun _ => rfl⟩).other_method
    (by rintro _ _ _ ⟨⟩) mstart mids).other_field (by rintro _ _ _ ⟨⟩) fstart fids

/-- A method of a class goes to its owner, or waits for it. -/
theorem placeOp_defMethod (h : Placed done state) (hnodup : (classSide.owners done).Nodup)
    (c m name : String) : ∃ state', placeOp state (.defMethod c m name) = .ok state' ∧
      Placed (done ++ [.defMethod c m name]) state' := by
  have hsilent := h.interfaces.silent
    (show interfaceSide.Silent (.defMethod c m name) from ⟨rfl, fun _ => rfl, fun _ => rfl⟩)
  cases hfind : findClassById state.classes c with
  | some i =>
      have hfind' := hfind
      rw [h.classes.nodes] at hfind'
      obtain ⟨d, hd, hc⟩ := findClassById_some hfind'
      obtain ⟨nodes, start, hplace, hplaced⟩ := h.classes.method_present
        (.defMethod c m name) (⟨m⟩, name) hnodup hd rfl
        (fun o => by rw [hc]; exact named_eq_ite c o _) (fun _ => rfl)
      have hplace' : classMethods.place i (state.classes, state.methodLocations)
        (⟨m⟩, name) = _ := hplace
      refine ⟨_, by simp only [placeOp, hfind, hplace', Rust.ok_bind]; rfl, ?_⟩
      exact ⟨hplaced,
        hsilent.other_method (by rintro _ _ _ ⟨⟩) start _,
        h.rows.silent rfl rfl rfl⟩
  | none =>
      have hfind' := hfind
      rw [h.classes.nodes] at hfind'
      have hplaced := h.classes.method_absent (.defMethod c m name) (⟨m⟩, name)
        (findClassById_none hfind') rfl (fun o => named_eq_ite c o _) (fun _ => rfl)
      refine ⟨_, by simp only [placeOp, hfind]; rfl, ?_⟩
      exact ⟨hplaced, hsilent,
        h.rows.silent rfl rfl rfl⟩

theorem placeOp_defField (h : Placed done state) (hnodup : (classSide.owners done).Nodup)
    (c f name : String) : ∃ state', placeOp state (.defField c f name) = .ok state' ∧
      Placed (done ++ [.defField c f name]) state' := by
  have hsilent := h.interfaces.silent
    (show interfaceSide.Silent (.defField c f name) from ⟨rfl, fun _ => rfl, fun _ => rfl⟩)
  cases hfind : findClassById state.classes c with
  | some i =>
      have hfind' := hfind
      rw [h.classes.nodes] at hfind'
      obtain ⟨d, hd, hc⟩ := findClassById_some hfind'
      obtain ⟨nodes, start, hplace, hplaced⟩ := h.classes.field_present
        (.defField c f name) (⟨f⟩, name) hnodup hd rfl
        (fun _ => rfl) (fun o => by rw [hc]; exact named_eq_ite c o _)
      have hplace' : classFields.place i (state.classes, state.fieldLocations)
        (⟨f⟩, name) = _ := hplace
      refine ⟨_, by simp only [placeOp, hfind, hplace', Rust.ok_bind]; rfl, ?_⟩
      exact ⟨hplaced,
        hsilent.other_field (by rintro _ _ _ ⟨⟩) start _,
        h.rows.silent rfl rfl rfl⟩
  | none =>
      have hfind' := hfind
      rw [h.classes.nodes] at hfind'
      have hplaced := h.classes.field_absent (.defField c f name) (⟨f⟩, name)
        (findClassById_none hfind') rfl (fun _ => rfl) (fun o => named_eq_ite c o _)
      refine ⟨_, by simp only [placeOp, hfind]; rfl, ?_⟩
      exact ⟨hplaced, hsilent,
        h.rows.silent rfl rfl rfl⟩

theorem placeOp_defInterfaceMethod (h : Placed done state) (hnodup : (interfaceSide.owners done).Nodup)
    (i m name : String) : ∃ state', placeOp state (.defInterfaceMethod i m name) = .ok state' ∧
      Placed (done ++ [.defInterfaceMethod i m name]) state' := by
  have hsilent := h.classes.silent
    (show classSide.Silent (.defInterfaceMethod i m name) from ⟨rfl, fun _ => rfl, fun _ => rfl⟩)
  cases hfind : state.interfaceLocations.lookup ⟨i⟩ with
  | some idx =>
      obtain ⟨d, hd, hi⟩ := interface_located h hfind
      obtain ⟨nodes, start, hplace, hplaced⟩ := h.interfaces.method_present
        (.defInterfaceMethod i m name) (⟨m⟩, name) hnodup hd rfl
        (fun o => by rw [hi]; exact named_eq_ite' i o _) (fun _ => rfl)
      have hplace' : interfaceMethods.place idx (state.interfaces, state.methodLocations)
        (⟨m⟩, name) = _ := hplace
      refine ⟨_, by simp only [placeOp, hfind, hplace', Rust.ok_bind]; rfl, ?_⟩
      exact ⟨hsilent.other_method (by rintro _ _ _ ⟨⟩) start _, hplaced,
        h.rows.silent rfl rfl rfl⟩
  | none =>
      have hplaced := h.interfaces.method_absent (.defInterfaceMethod i m name) (⟨m⟩, name)
        (interface_absent h hfind) rfl (fun o => named_eq_ite' i o _) (fun _ => rfl)
      refine ⟨_, by simp only [placeOp, hfind]; rfl, ?_⟩
      exact ⟨hsilent, hplaced,
        h.rows.silent rfl rfl rfl⟩

theorem placeOp_defInterfaceField (h : Placed done state) (hnodup : (interfaceSide.owners done).Nodup)
    (i f name : String) : ∃ state', placeOp state (.defInterfaceField i f name) = .ok state' ∧
      Placed (done ++ [.defInterfaceField i f name]) state' := by
  have hsilent := h.classes.silent
    (show classSide.Silent (.defInterfaceField i f name) from ⟨rfl, fun _ => rfl, fun _ => rfl⟩)
  cases hfind : state.interfaceLocations.lookup ⟨i⟩ with
  | some idx =>
      obtain ⟨d, hd, hi⟩ := interface_located h hfind
      obtain ⟨nodes, start, hplace, hplaced⟩ := h.interfaces.field_present
        (.defInterfaceField i f name) (⟨f⟩, name) hnodup hd rfl
        (fun _ => rfl) (fun o => by rw [hi]; exact named_eq_ite' i o _)
      have hplace' : interfaceFields.place idx (state.interfaces, state.fieldLocations)
        (⟨f⟩, name) = _ := hplace
      refine ⟨_, by simp only [placeOp, hfind, hplace', Rust.ok_bind]; rfl, ?_⟩
      exact ⟨hsilent.other_field (by rintro _ _ _ ⟨⟩) start _, hplaced,
        h.rows.silent rfl rfl rfl⟩
  | none =>
      have hplaced := h.interfaces.field_absent (.defInterfaceField i f name) (⟨f⟩, name)
        (interface_absent h hfind) rfl (fun _ => rfl) (fun o => named_eq_ite' i o _)
      refine ⟨_, by simp only [placeOp, hfind]; rfl, ?_⟩
      exact ⟨hsilent, hplaced,
        h.rows.silent rfl rfl rfl⟩

/-- One instruction of the first pass. -/
theorem placeOp_ok (h : Placed done state) (op : CoreOp)
    (hclasses : (classSide.owners (done ++ [op])).Nodup)
    (hinterfaces : (interfaceSide.owners (done ++ [op])).Nodup) :
    ∃ state', placeOp state op = .ok state' ∧ Placed (done ++ [op]) state' := by
  have hsublist : ∀ {ν ο : Type} (S : Side ν ο),
      (S.owners (done ++ [op])).Nodup → (S.owners done).Nodup := by
    intro ν ο S hunique
    rw [Side.owners, List.filterMap_append, List.map_append] at hunique
    exact hunique.of_append_left
  have hnodup := hsublist classSide hclasses
  have hnodup' := hsublist interfaceSide hinterfaces
  cases op with
  | defClass id name => exact placeOp_defClass h hclasses
  | defInterface id name => exact placeOp_defInterface h hinterfaces
  | defMethod c m name => exact placeOp_defMethod h hnodup c m name
  | defField c f name => exact placeOp_defField h hnodup c f name
  | defInterfaceMethod i m name => exact placeOp_defInterfaceMethod h hnodup' i m name
  | defInterfaceField i f name => exact placeOp_defInterfaceField h hnodup' i f name
  | importModule _ _ _ | typeAlias _ _ | call _ _ _ _ =>
      obtain ⟨himports, htypeAliases, hcalls⟩ := h.rows
      refine ⟨_, rfl, h.classes.silent ⟨rfl, fun _ => rfl, fun _ => rfl⟩,
        h.interfaces.silent ⟨rfl, fun _ => rfl, fun _ => rfl⟩, ?_⟩
      constructor <;> simp [importRow, typeAliasRow, callRow, *]
  | _ =>
      exact ⟨_, rfl, h.classes.silent ⟨rfl, fun _ => rfl, fun _ => rfl⟩,
        h.interfaces.silent ⟨rfl, fun _ => rfl, fun _ => rfl⟩, h.rows.silent rfl rfl rfl⟩

end Step

/-- The first pass, by induction on the instructions left. -/
theorem foldlM_placeOp_ok (ops : List CoreOp) {done : List CoreOp} {state : Placement}
    (h : Placed done state) (hclasses : (classSide.owners (done ++ ops)).Nodup)
    (hinterfaces : (interfaceSide.owners (done ++ ops)).Nodup) :
    ∃ state', ops.foldlM placeOp state = .ok state' ∧ Placed (done ++ ops) state' := by
  induction ops generalizing done state with
  | nil => exact ⟨state, rfl, by simpa using h⟩
  | cons op ops ih =>
      have hsplit : done ++ op :: ops = (done ++ [op]) ++ ops := by simp
      have hsublist : ∀ {ν ο : Type} (S : Side ν ο),
          (S.owners ((done ++ [op]) ++ ops)).Nodup → (S.owners (done ++ [op])).Nodup := by
        intro ν ο S hunique
        rw [Side.owners, List.filterMap_append, List.map_append] at hunique
        exact hunique.of_append_left
      rw [hsplit] at hclasses hinterfaces ⊢
      obtain ⟨state₁, hrun, hplaced⟩ :=
        placeOp_ok h op (hsublist classSide hclasses) (hsublist interfaceSide hinterfaces)
      obtain ⟨state₂, hrest, hplaced'⟩ := ih hplaced hclasses hinterfaces
      exact ⟨state₂, by rw [List.foldlM_cons, hrun, Rust.ok_bind, hrest], hplaced'⟩

end Hierarchical
end CleanCtx
