import CleanCtx.Ir.HierarchicalAttach

/-!
The second pass on the tree of a valid stream: every location found leads to the
one node of its identity, so that each instruction turns the tree of the facts
so far into the tree of one fact more, without an error and without a panic.
-/
namespace CleanCtx
namespace Vec

/-- Updating one element of a mapped list maps the list by a function that differs there. -/
theorem update_map {α β : Type} {g g' : α → β} {l : List α} {i : Nat} {a : α} {f : β → Rust β}
    (hi : l[i]? = some a) (hf : f (g a) = .ok (g' a))
    (hother : ∀ j x, j ≠ i → l[j]? = some x → g x = g' x) :
    update (l.map g) i f = .ok (l.map g') := by
  have hget : (l.map g)[i]? = some (g a) := by rw [List.getElem?_map, hi]; rfl
  have hlt : i < (l.map g).length := (List.getElem?_eq_some_iff.mp hget).1
  simp only [update, index, hget, Rust.ok_bind, hf, set, if_pos hlt,
    Lists.set_map hi rfl hother]

end Vec

namespace Hierarchical

/-- Updating a located member changes its own node only. -/
theorem MemberKind.update_ok {ν ο μ κ lo : Type} [DecidableEq κ] (kind : MemberKind ν μ κ lo)
    {owners : List (ο × String)} {members : ο → List (κ × String)} {node node' : ο × String → ν}
    {member member' : κ × String → μ} {i j : Nat} {d : ο × String} {e : κ × String} {f : μ → μ}
    (howners : (owners.map Prod.fst).Nodup) (hnodup : ((members d.1).map Prod.fst).Nodup)
    (hd : owners[i]? = some d) (he : (members d.1)[j]? = some e)
    (hmembers : kind.members (node d) = (members d.1).map member)
    (hfired : f (member e) = member' e) (hsilent : ∀ x, x.1 ≠ e.1 → member x = member' x)
    (hnode : kind.withMembers (node d) ((members d.1).map member') = node' d)
    (hother : ∀ x, x.1 ≠ d.1 → node x = node' x) :
    kind.update (owners.map node) i j f = .ok (owners.map node') := by
  have hinner : Vec.update ((members d.1).map member) j (fun m => .ok (f m)) =
      .ok ((members d.1).map member') :=
    Vec.update_map he (by rw [hfired]) fun k x hk hx =>
      hsilent x (Lists.key_ne_of_ne hnodup he hx hk)
  refine Vec.update_map hd ?_ fun k x hk hx => hother x (Lists.key_ne_of_ne howners hd hx hk)
  rw [hmembers, hinner, Rust.ok_bind, hnode]

theorem mem_classDecl {ops : List CoreOp} {d : ClassId × String} :
    d ∈ ops.filterMap classDecl ↔ CoreOp.defClass d.1.raw d.2 ∈ ops := by
  constructor
  · intro h
    obtain ⟨op, hop, hd⟩ := List.mem_filterMap.mp h
    cases op <;> simp [classDecl] at hd
    subst hd
    exact hop
  · exact fun h => List.mem_filterMap.mpr ⟨_, h, rfl⟩

theorem mem_interfaceDecl {ops : List CoreOp} {d : InterfaceId × String} :
    d ∈ ops.filterMap interfaceDecl ↔ CoreOp.defInterface d.1.raw d.2 ∈ ops := by
  constructor
  · intro h
    obtain ⟨op, hop, hd⟩ := List.mem_filterMap.mp h
    cases op <;> simp [interfaceDecl] at hd
    subst hd
    exact hop
  · exact fun h => List.mem_filterMap.mpr ⟨_, h, rfl⟩

theorem mem_methodDecl {ops : List CoreOp} {c : ClassId} {e : MethodId × String} :
    e ∈ ops.filterMap (methodDecl c) ↔ CoreOp.defMethod c.raw e.1.raw e.2 ∈ ops := by
  constructor
  · intro h
    obtain ⟨op, hop, he⟩ := List.mem_filterMap.mp h
    cases op <;> simp [methodDecl, named_eq_some] at he
    obtain ⟨rfl, rfl⟩ := he
    exact hop
  · exact fun h => List.mem_filterMap.mpr ⟨_, h, named_self _ _⟩

theorem mem_fieldDecl {ops : List CoreOp} {c : ClassId} {e : FieldId × String} :
    e ∈ ops.filterMap (fieldDecl c) ↔ CoreOp.defField c.raw e.1.raw e.2 ∈ ops := by
  constructor
  · intro h
    obtain ⟨op, hop, he⟩ := List.mem_filterMap.mp h
    cases op <;> simp [fieldDecl, named_eq_some] at he
    obtain ⟨rfl, rfl⟩ := he
    exact hop
  · exact fun h => List.mem_filterMap.mpr ⟨_, h, named_self _ _⟩

theorem mem_interfaceMethodDecl {ops : List CoreOp} {i : InterfaceId} {e : MethodId × String} :
    e ∈ ops.filterMap (interfaceMethodDecl i) ↔
      CoreOp.defInterfaceMethod i.raw e.1.raw e.2 ∈ ops := by
  constructor
  · intro h
    obtain ⟨op, hop, he⟩ := List.mem_filterMap.mp h
    cases op <;> simp [interfaceMethodDecl, named_eq_some] at he
    obtain ⟨rfl, rfl⟩ := he
    exact hop
  · exact fun h => List.mem_filterMap.mpr ⟨_, h, named_self _ _⟩

theorem mem_interfaceFieldDecl {ops : List CoreOp} {i : InterfaceId} {e : FieldId × String} :
    e ∈ ops.filterMap (interfaceFieldDecl i) ↔
      CoreOp.defInterfaceField i.raw e.1.raw e.2 ∈ ops := by
  constructor
  · intro h
    obtain ⟨op, hop, he⟩ := List.mem_filterMap.mp h
    cases op <;> simp [interfaceFieldDecl, named_eq_some] at he
    obtain ⟨rfl, rfl⟩ := he
    exact hop
  · exact fun h => List.mem_filterMap.mpr ⟨_, h, named_self _ _⟩

section Tree

variable {ops facts : List CoreOp} {placed : Placement}

/-- The variables of the second pass after the facts `facts`. -/
def attached (placed : Placement) (ops facts : List CoreOp) : Placement :=
  { placed with
    classes := (ops.filterMap classDecl).map (classNode ops facts)
    interfaces := (ops.filterMap interfaceDecl).map (interfaceNode ops facts) }

theorem attached_nil (hplaced : Placed ops placed) : attached placed ops [] = placed := by
  have hclasses := hplaced.classes.nodes
  have hinterfaces := hplaced.interfaces.nodes
  cases placed
  simp only at hclasses hinterfaces
  subst hclasses hinterfaces
  rfl

theorem nodup_classes (hvalid : Valid ops) : ((ops.filterMap classDecl).map Prod.fst).Nodup := by
  refine hvalid.nodup_definitions ClassId.raw fun op d hd => ?_
  cases op <;> simp [classDecl] at hd
  subst hd
  rfl

theorem nodup_interfaces (hvalid : Valid ops) :
    ((ops.filterMap interfaceDecl).map Prod.fst).Nodup := by
  refine hvalid.nodup_definitions InterfaceId.raw fun op d hd => ?_
  cases op <;> simp [interfaceDecl] at hd
  subst hd
  rfl

theorem nodup_methods (hvalid : Valid ops) (c : ClassId) :
    ((ops.filterMap (methodDecl c)).map Prod.fst).Nodup := by
  refine hvalid.nodup_definitions MethodId.raw fun op d hd => ?_
  cases op <;> simp [methodDecl, named_eq_some] at hd
  obtain ⟨-, rfl⟩ := hd
  rfl

theorem nodup_fields (hvalid : Valid ops) (c : ClassId) :
    ((ops.filterMap (fieldDecl c)).map Prod.fst).Nodup := by
  refine hvalid.nodup_definitions FieldId.raw fun op d hd => ?_
  cases op <;> simp [fieldDecl, named_eq_some] at hd
  obtain ⟨-, rfl⟩ := hd
  rfl

theorem nodup_interfaceMethods (hvalid : Valid ops) (i : InterfaceId) :
    ((ops.filterMap (interfaceMethodDecl i)).map Prod.fst).Nodup := by
  refine hvalid.nodup_definitions MethodId.raw fun op d hd => ?_
  cases op <;> simp [interfaceMethodDecl, named_eq_some] at hd
  obtain ⟨-, rfl⟩ := hd
  rfl

theorem nodup_interfaceFields (hvalid : Valid ops) (i : InterfaceId) :
    ((ops.filterMap (interfaceFieldDecl i)).map Prod.fst).Nodup := by
  refine hvalid.nodup_definitions FieldId.raw fun op d hd => ?_
  cases op <;> simp [interfaceFieldDecl, named_eq_some] at hd
  obtain ⟨-, rfl⟩ := hd
  rfl

/-- A location found is the place of a declaration with the identity looked up. -/
theorem located_decl {ο κ lo : Type} [DecidableEq κ] {locate : Nat → Nat → lo}
    {decls : List (ο × String)} {members : ο → List (κ × String)} {locations : HashMap κ lo}
    (h : Located locate (decls.map Prod.fst) (fun o => (members o).map Prod.fst) locations)
    {k : κ} {i j : Nat} (hk : locations.lookup k = some (locate i j)) :
    ∃ d e, decls[i]? = some d ∧ (members d.1)[j]? = some e ∧ e.1 = k := by
  obtain ⟨o, ho, hmember⟩ := h.sound hk
  rw [List.getElem?_map] at ho hmember
  obtain ⟨d, hd, rfl⟩ := Option.map_eq_some_iff.mp ho
  obtain ⟨e, he, rfl⟩ := Option.map_eq_some_iff.mp hmember
  exact ⟨d, e, hd, he, rfl⟩

theorem mem_classOwners {c : String} :
    (⟨c⟩ : ClassId) ∈ classSide.owners ops ↔ Declares ops .class c := by
  constructor
  · intro h
    obtain ⟨d, hd, hc⟩ := List.mem_map.mp h
    exact ⟨_, mem_classDecl.mp hd, by rw [hc]; rfl⟩
  · rintro ⟨op, hop, hc⟩
    cases op <;> cases hc
    exact List.mem_map.mpr ⟨(⟨c⟩, _), mem_classDecl.mpr hop, rfl⟩

theorem mem_interfaceOwners {i : String} :
    (⟨i⟩ : InterfaceId) ∈ interfaceSide.owners ops ↔ Declares ops .interface i := by
  constructor
  · intro h
    obtain ⟨d, hd, hi⟩ := List.mem_map.mp h
    exact ⟨_, mem_interfaceDecl.mp hd, by rw [hi]; rfl⟩
  · rintro ⟨op, hop, hi⟩
    cases op <;> cases hi
    exact List.mem_map.mpr ⟨(⟨i⟩, _), mem_interfaceDecl.mpr hop, rfl⟩

theorem class_of_target (hvalid : Valid ops) {op : CoreOp} (hop : op ∈ ops) {c : String}
    (hc : (.class, c) ∈ op.targets) : (⟨c⟩ : ClassId) ∈ classSide.owners ops :=
  mem_classOwners.mpr ((hvalid.resolved op hop).targets _ hc)

theorem interface_of_target (hvalid : Valid ops) {op : CoreOp} (hop : op ∈ ops) {i : String}
    (hi : (.interface, i) ∈ op.targets) : (⟨i⟩ : InterfaceId) ∈ interfaceSide.owners ops :=
  mem_interfaceOwners.mpr ((hvalid.resolved op hop).targets _ hi)

theorem method_located (hvalid : Valid ops) (hplaced : Placed ops placed) {m : String}
    (hm : Declares ops .method m) : ∃ loc, placed.methodLocations.lookup ⟨m⟩ = some loc := by
  refine Option.isSome_iff_exists.mp (Finmap.lookup_isSome.mpr ?_)
  obtain ⟨op, hop, hdef⟩ := hm
  cases op with
  | defMethod c id name =>
      cases hdef
      exact hplaced.classes.methods.located.complete
        (class_of_target hvalid hop (by simp [CoreOp.targets]))
        (List.mem_map.mpr ⟨(⟨m⟩, name), mem_methodDecl.mpr hop, rfl⟩)
  | defInterfaceMethod i id name =>
      cases hdef
      exact hplaced.interfaces.methods.located.complete
        (interface_of_target hvalid hop (by simp [CoreOp.targets]))
        (List.mem_map.mpr ⟨(⟨m⟩, name), mem_interfaceMethodDecl.mpr hop, rfl⟩)
  | _ => cases hdef

theorem field_located (hvalid : Valid ops) (hplaced : Placed ops placed) {f : String}
    (hf : Declares ops .field f) : ∃ loc, placed.fieldLocations.lookup ⟨f⟩ = some loc := by
  refine Option.isSome_iff_exists.mp (Finmap.lookup_isSome.mpr ?_)
  obtain ⟨op, hop, hdef⟩ := hf
  cases op with
  | defField c id name =>
      cases hdef
      exact hplaced.classes.fields.located.complete
        (class_of_target hvalid hop (by simp [CoreOp.targets]))
        (List.mem_map.mpr ⟨(⟨f⟩, name), mem_fieldDecl.mpr hop, rfl⟩)
  | defInterfaceField i id name =>
      cases hdef
      exact hplaced.interfaces.fields.located.complete
        (interface_of_target hvalid hop (by simp [CoreOp.targets]))
        (List.mem_map.mpr ⟨(⟨f⟩, name), mem_interfaceFieldDecl.mpr hop, rfl⟩)
  | _ => cases hdef

theorem members_silent {op : CoreOp} {members : List (MethodId × String)}
    (h : ∀ e ∈ members, factTarget op ≠ some (.method e.1.raw)) :
    members.map (methodNode (facts ++ [op])) = members.map (methodNode facts) :=
  List.map_congr_left fun e he => methodNode_silent (h e he)

theorem fields_silent {op : CoreOp} {members : List (FieldId × String)}
    (h : ∀ e ∈ members, factTarget op ≠ some (.field e.1.raw)) :
    members.map (fieldNode (facts ++ [op])) = members.map (fieldNode facts) :=
  List.map_congr_left fun e he => fieldNode_silent (h e he)

/-- A fact that names no member of a class, and not the class, leaves it as it is. -/
theorem classNode_silent {op : CoreOp} {d : ClassId × String}
    (hown : factTarget op ≠ some (.class d.1.raw))
    (hmethods : ∀ e ∈ ops.filterMap (methodDecl d.1), factTarget op ≠ some (.method e.1.raw))
    (hfields : ∀ e ∈ ops.filterMap (fieldDecl d.1), factTarget op ≠ some (.field e.1.raw)) :
    classNode ops (facts ++ [op]) d = classNode ops facts d := by
  rw [classNode_eq, classNode_eq, classOwn_silent hown, members_silent hmethods,
    fields_silent hfields]

theorem interfaceNode_silent {op : CoreOp} {d : InterfaceId × String}
    (hown : factTarget op ≠ some (.interface d.1.raw))
    (hmethods : ∀ e ∈ ops.filterMap (interfaceMethodDecl d.1),
      factTarget op ≠ some (.method e.1.raw))
    (hfields : ∀ e ∈ ops.filterMap (interfaceFieldDecl d.1),
      factTarget op ≠ some (.field e.1.raw)) :
    interfaceNode ops (facts ++ [op]) d = interfaceNode ops facts d := by
  rw [interfaceNode_eq, interfaceNode_eq, interfaceOwn_silent hown, members_silent hmethods,
    fields_silent hfields]

/-- A method is declared under one owner only. -/
theorem method_owner (hvalid : Valid ops) {op : CoreOp} {m : String} (hop : op ∈ ops)
    (hslot : op.slot = some (.definition m)) {c : ClassId} {e : MethodId × String}
    (he : e ∈ ops.filterMap (methodDecl c)) (hm : e.1.raw = m) :
    op = .defMethod c.raw m e.2 := by
  rw [mem_methodDecl, hm] at he
  exact hvalid.eq_of_slot hop he hslot rfl

theorem interfaceMethod_owner (hvalid : Valid ops) {op : CoreOp} {m : String} (hop : op ∈ ops)
    (hslot : op.slot = some (.definition m)) {i : InterfaceId} {e : MethodId × String}
    (he : e ∈ ops.filterMap (interfaceMethodDecl i)) (hm : e.1.raw = m) :
    op = .defInterfaceMethod i.raw m e.2 := by
  rw [mem_interfaceMethodDecl, hm] at he
  exact hvalid.eq_of_slot hop he hslot rfl

theorem field_owner (hvalid : Valid ops) {op : CoreOp} {f : String} (hop : op ∈ ops)
    (hslot : op.slot = some (.definition f)) {c : ClassId} {e : FieldId × String}
    (he : e ∈ ops.filterMap (fieldDecl c)) (hf : e.1.raw = f) :
    op = .defField c.raw f e.2 := by
  rw [mem_fieldDecl, hf] at he
  exact hvalid.eq_of_slot hop he hslot rfl

theorem interfaceField_owner (hvalid : Valid ops) {op : CoreOp} {f : String} (hop : op ∈ ops)
    (hslot : op.slot = some (.definition f)) {i : InterfaceId} {e : FieldId × String}
    (he : e ∈ ops.filterMap (interfaceFieldDecl i)) (hf : e.1.raw = f) :
    op = .defInterfaceField i.raw f e.2 := by
  rw [mem_interfaceFieldDecl, hf] at he
  exact hvalid.eq_of_slot hop he hslot rfl

section Member

variable {op declaration : CoreOp} {m : String}

/-- A method fact leaves every class but the owner of its method as it is. -/
theorem classNode_otherMethod (hvalid : Valid ops) (htarget : factTarget op = some (.method m))
    (hop : declaration ∈ ops) (hslot : declaration.slot = some (.definition m))
    {x : ClassId × String} (hx : ∀ name, declaration ≠ .defMethod x.1.raw m name) :
    classNode ops facts x = classNode ops (facts ++ [op]) x := by
  refine (classNode_silent (by simp [htarget]) (fun e he hm => ?_) (by simp [htarget])).symm
  rw [htarget, Option.some.injEq, Target.method.injEq] at hm
  exact hx _ (method_owner hvalid hop hslot he hm.symm)

theorem interfaceNode_otherMethod (hvalid : Valid ops)
    (htarget : factTarget op = some (.method m)) (hop : declaration ∈ ops)
    (hslot : declaration.slot = some (.definition m)) {x : InterfaceId × String}
    (hx : ∀ name, declaration ≠ .defInterfaceMethod x.1.raw m name) :
    interfaceNode ops facts x = interfaceNode ops (facts ++ [op]) x := by
  refine (interfaceNode_silent (by simp [htarget]) (fun e he hm => ?_) (by simp [htarget])).symm
  rw [htarget, Option.some.injEq, Target.method.injEq] at hm
  exact hx _ (interfaceMethod_owner hvalid hop hslot he hm.symm)

theorem classNode_otherField (hvalid : Valid ops) (htarget : factTarget op = some (.field m))
    (hop : declaration ∈ ops) (hslot : declaration.slot = some (.definition m))
    {x : ClassId × String} (hx : ∀ name, declaration ≠ .defField x.1.raw m name) :
    classNode ops facts x = classNode ops (facts ++ [op]) x := by
  refine (classNode_silent (by simp [htarget]) (by simp [htarget]) fun e he hm => ?_).symm
  rw [htarget, Option.some.injEq, Target.field.injEq] at hm
  exact hx _ (field_owner hvalid hop hslot he hm.symm)

theorem interfaceNode_otherField (hvalid : Valid ops)
    (htarget : factTarget op = some (.field m)) (hop : declaration ∈ ops)
    (hslot : declaration.slot = some (.definition m)) {x : InterfaceId × String}
    (hx : ∀ name, declaration ≠ .defInterfaceField x.1.raw m name) :
    interfaceNode ops facts x = interfaceNode ops (facts ++ [op]) x := by
  refine (interfaceNode_silent (by simp [htarget]) (by simp [htarget]) fun e he hm => ?_).symm
  rw [htarget, Option.some.injEq, Target.field.injEq] at hm
  exact hx _ (interfaceField_owner hvalid hop hslot he hm.symm)

end Member

theorem methodNode_fired_at {op : CoreOp} {m : String} {e : MethodId × String}
    (htarget : factTarget op = some (.method m)) (he : e.1 = ⟨m⟩) :
    updateMethod op (methodNode facts e) = methodNode (facts ++ [op]) e :=
  (methodNode_fired (by rw [he]; exact htarget)).symm

theorem methodNode_silent_at {op : CoreOp} {m : String} {e x : MethodId × String}
    (htarget : factTarget op = some (.method m)) (he : e.1 = ⟨m⟩) (hx : x.1 ≠ e.1) :
    methodNode facts x = methodNode (facts ++ [op]) x := by
  refine (methodNode_silent fun h => hx ?_).symm
  rw [htarget, Option.some.injEq, Target.method.injEq] at h
  rw [he, h]

theorem fieldNode_fired_at {op : CoreOp} {f : String} {e : FieldId × String}
    (htarget : factTarget op = some (.field f)) (he : e.1 = ⟨f⟩) :
    updateField op (fieldNode facts e) = fieldNode (facts ++ [op]) e :=
  (fieldNode_fired (by rw [he]; exact htarget)).symm

theorem fieldNode_silent_at {op : CoreOp} {f : String} {e x : FieldId × String}
    (htarget : factTarget op = some (.field f)) (he : e.1 = ⟨f⟩) (hx : x.1 ≠ e.1) :
    fieldNode facts x = fieldNode (facts ++ [op]) x := by
  refine (fieldNode_silent fun h => hx ?_).symm
  rw [htarget, Option.some.injEq, Target.field.injEq] at h
  rw [he, h]

variable (facts) in
/-- A method fact at a class method. -/
theorem updateClassMethod_ok (hvalid : Valid ops) (hplaced : Placed ops placed) {op : CoreOp}
    {m : String} (htarget : factTarget op = some (.method m)) {i j : Nat}
    (hloc : placed.methodLocations.lookup ⟨m⟩ = some (.class i j)) :
    ∃ d name, (ops.filterMap classDecl)[i]? = some d ∧ CoreOp.defMethod d.1.raw m name ∈ ops ∧
      classMethods.update ((ops.filterMap classDecl).map (classNode ops facts)) i j
          (updateMethod op) =
        .ok ((ops.filterMap classDecl).map (classNode ops (facts ++ [op]))) ∧
      interfaceNode ops facts = interfaceNode ops (facts ++ [op]) := by
  obtain ⟨d, e, hd, he, hem⟩ := located_decl hplaced.classes.methods.located hloc
  have hdef := mem_methodDecl.mp (List.mem_of_getElem? he)
  rw [hem] at hdef
  refine ⟨d, e.2, hd, hdef, ?_,
    funext fun x => interfaceNode_otherMethod hvalid htarget hdef rfl (by simp)⟩
  refine classMethods.update_ok (nodup_classes hvalid) (nodup_methods hvalid d.1) hd he rfl
    (methodNode_fired_at htarget hem) (fun x => methodNode_silent_at htarget hem) ?_ ?_
  · rw [classNode_eq ops (facts ++ [op]), classOwn_silent (by simp [htarget]),
      fields_silent (by simp [htarget])]
    rfl
  · intro x hx
    refine classNode_otherMethod hvalid htarget hdef rfl ?_
    rintro name hsame
    simp only [CoreOp.defMethod.injEq] at hsame
    exact hx (congrArg ClassId.mk hsame.1.symm)

/-- A method fact finds its method and becomes the last of its kind there. -/
theorem methodMut_ok (hvalid : Valid ops) (hplaced : Placed ops placed) {op : CoreOp} {m : String}
    (htarget : factTarget op = some (.method m)) (hm : Declares ops .method m)
    (operation : String) (instruction : Nat) :
    methodMut (attached placed ops facts) m operation instruction (updateMethod op) =
      pure (attached placed ops (facts ++ [op])) := by
  obtain ⟨loc, hloc⟩ := method_located hvalid hplaced hm
  have hfound : methodLocation (attached placed ops facts) m operation instruction = pure loc := by
    simp [methodLocation, location, attached, hloc]
  rw [methodMut, hfound, pure_bind]
  cases loc with
  | «class» i j =>
      obtain ⟨_, _, _, _, hupdate, hinterfaces⟩ :=
        updateClassMethod_ok facts hvalid hplaced htarget hloc
      simp only [attached, hupdate, Fallible.ofRust_ok, pure_bind, hinterfaces]
  | interface i j =>
      obtain ⟨d, e, hd, he, hem⟩ := located_decl hplaced.interfaces.methods.located hloc
      have hdef := mem_interfaceMethodDecl.mp (List.mem_of_getElem? he)
      rw [hem] at hdef
      have hupdate := interfaceMethods.update_ok (nodup_interfaces hvalid)
        (nodup_interfaceMethods hvalid d.1)
        hd he rfl (show updateMethod op (methodNode facts e) = _ from methodNode_fired_at htarget hem)
        (fun x => methodNode_silent_at htarget hem)
        (show _ = interfaceNode ops (facts ++ [op]) d by
          rw [interfaceNode_eq ops (facts ++ [op]), interfaceOwn_silent (by simp [htarget]),
            fields_silent (by simp [htarget])]
          rfl)
        (fun x hx => interfaceNode_otherMethod hvalid htarget hdef rfl (by
          rintro name hsame
          simp only [CoreOp.defInterfaceMethod.injEq] at hsame
          exact hx (congrArg InterfaceId.mk hsame.1.symm)))
      have hclasses : classNode ops facts = classNode ops (facts ++ [op]) :=
        funext fun x => classNode_otherMethod hvalid htarget hdef rfl (by simp)
      simp only [attached, hupdate, Fallible.ofRust_ok, pure_bind, hclasses]

/-- A field fact finds its field. -/
theorem fieldMut_ok (hvalid : Valid ops) (hplaced : Placed ops placed) {op : CoreOp} {f : String}
    (htarget : factTarget op = some (.field f)) (hf : Declares ops .field f)
    (operation : String) (instruction : Nat) :
    fieldMut (attached placed ops facts) f operation instruction (updateField op) =
      pure (attached placed ops (facts ++ [op])) := by
  obtain ⟨loc, hloc⟩ := field_located hvalid hplaced hf
  have hfound : location (attached placed ops facts).fieldLocations ⟨f⟩ operation .field f
      instruction = pure loc := by
    simp [location, attached, hloc]
  rw [fieldMut, hfound, pure_bind]
  cases loc with
  | «class» i j =>
      obtain ⟨d, e, hd, he, hef⟩ := located_decl hplaced.classes.fields.located hloc
      have hdef := mem_fieldDecl.mp (List.mem_of_getElem? he)
      rw [hef] at hdef
      have hupdate := classFields.update_ok (nodup_classes hvalid) (nodup_fields hvalid d.1)
        hd he rfl (fieldNode_fired_at htarget hef) (fun x => fieldNode_silent_at htarget hef)
        (show _ = classNode ops (facts ++ [op]) d by
          rw [classNode_eq ops (facts ++ [op]), classOwn_silent (by simp [htarget]),
            members_silent (by simp [htarget])]
          rfl)
        (fun x hx => classNode_otherField hvalid htarget hdef rfl (by
          rintro name hsame
          simp only [CoreOp.defField.injEq] at hsame
          exact hx (congrArg ClassId.mk hsame.1.symm)))
      have hinterfaces : interfaceNode ops facts = interfaceNode ops (facts ++ [op]) :=
        funext fun x => interfaceNode_otherField hvalid htarget hdef rfl (by simp)
      simp only [attached, hupdate, Fallible.ofRust_ok, pure_bind, hinterfaces]
  | interface i j =>
      obtain ⟨d, e, hd, he, hef⟩ := located_decl hplaced.interfaces.fields.located hloc
      have hdef := mem_interfaceFieldDecl.mp (List.mem_of_getElem? he)
      rw [hef] at hdef
      have hupdate := interfaceFields.update_ok (nodup_interfaces hvalid)
        (nodup_interfaceFields hvalid d.1)
        hd he rfl (fieldNode_fired_at htarget hef) (fun x => fieldNode_silent_at htarget hef)
        (show _ = interfaceNode ops (facts ++ [op]) d by
          rw [interfaceNode_eq ops (facts ++ [op]), interfaceOwn_silent (by simp [htarget]),
            members_silent (by simp [htarget])]
          rfl)
        (fun x hx => interfaceNode_otherField hvalid htarget hdef rfl (by
          rintro name hsame
          simp only [CoreOp.defInterfaceField.injEq] at hsame
          exact hx (congrArg InterfaceId.mk hsame.1.symm)))
      have hclasses : classNode ops facts = classNode ops (facts ++ [op]) :=
        funext fun x => classNode_otherField hvalid htarget hdef rfl (by simp)
      simp only [attached, hupdate, Fallible.ofRust_ok, pure_bind, hclasses]

/-- The index of a declared owner. -/
theorem owner_located {ν ο : Type} [DecidableEq ο] {S : Side ν ο} {locations : HashMap ο Nat}
    (h : Indexes id locations (S.owners ops)) {o : ο} (ho : o ∈ S.owners ops) :
    ∃ i d, locations.lookup o = some i ∧ (ops.filterMap S.ownerDecl)[i]? = some d ∧ d.1 = o := by
  obtain ⟨i, hi⟩ := h.lookup_isSome ho
  obtain ⟨found, hget, hfound⟩ := h.sound hi
  rw [Side.owners, List.getElem?_map] at hget
  obtain ⟨d, hd, hd'⟩ := Option.map_eq_some_iff.mp hget
  exact ⟨i, d, hi, hd, hd'.trans hfound⟩

theorem classNode_fired {op : CoreOp} {d : ClassId × String}
    (htarget : factTarget op = some (.class d.1.raw)) :
    classNode ops (facts ++ [op]) d = updateClass op (classNode ops facts d) := by
  have hcommute : ∀ (node : ClassNode) ms fs,
      { updateClass op node with methods := ms, fields := fs } =
        updateClass op { node with methods := ms, fields := fs } := by
    intro node ms fs
    cases op <;> rfl
  rw [classNode_eq, classOwn_fired htarget, members_silent (by simp [htarget]),
    fields_silent (by simp [htarget]), hcommute, ← classNode_eq]

theorem interfaceNode_fired {op : CoreOp} {d : InterfaceId × String}
    (htarget : factTarget op = some (.interface d.1.raw)) :
    interfaceNode ops (facts ++ [op]) d = updateInterface op (interfaceNode ops facts d) := by
  have hcommute : ∀ (node : InterfaceNode) ms fs,
      { updateInterface op node with methods := ms, fields := fs } =
        updateInterface op { node with methods := ms, fields := fs } := by
    intro node ms fs
    cases op <;> rfl
  rw [interfaceNode_eq, interfaceOwn_fired htarget, members_silent (by simp [htarget]),
    fields_silent (by simp [htarget]), hcommute, ← interfaceNode_eq]

variable (facts) in
/-- A class fact finds its class. -/
theorem classMut_ok (hvalid : Valid ops) (hplaced : Placed ops placed) {op : CoreOp} {c : String}
    (htarget : factTarget op = some (.class c)) (hc : Declares ops .class c)
    (operation : String) (instruction : Nat) :
    classMut (attached placed ops facts) c operation instruction (updateClass op) =
      pure (attached placed ops (facts ++ [op])) := by
  obtain ⟨i, d, hi, hd, hdc⟩ :=
    owner_located hplaced.classes.locations (mem_classOwners.mpr hc)
  have hfound : classLocation (attached placed ops facts) c operation instruction = pure i := by
    simp [classLocation, location, attached, hi]
  have hd' : (ops.filterMap classDecl)[i]? = some d := hd
  have hfired : updateClass op (classNode ops facts d) = classNode ops (facts ++ [op]) d :=
    (classNode_fired (by rw [hdc]; exact htarget)).symm
  have hupdate := Vec.update_map (f := fun node => .ok (updateClass op node)) hd'
    (congrArg Except.ok hfired)
    (fun j x hj hx => by
      refine (classNode_silent (fun h => ?_) (by simp [htarget]) (by simp [htarget])).symm
      rw [htarget, Option.some.injEq, Target.class.injEq] at h
      refine Lists.key_ne_of_ne (nodup_classes hvalid) hd' hx hj ?_
      rw [hdc, h])
  have hinterfaces : interfaceNode ops facts = interfaceNode ops (facts ++ [op]) := funext fun x =>
    (interfaceNode_silent (by simp [htarget]) (by simp [htarget]) (by simp [htarget])).symm
  rw [classMut, hfound, pure_bind]
  simp only [attached, hupdate, Fallible.ofRust_ok, pure_bind, hinterfaces]

theorem interfaceMut_ok (hvalid : Valid ops) (hplaced : Placed ops placed) {op : CoreOp}
    {c : String} (htarget : factTarget op = some (.interface c)) (hc : Declares ops .interface c)
    (operation : String) (instruction : Nat) :
    interfaceMut (attached placed ops facts) c operation instruction (updateInterface op) =
      pure (attached placed ops (facts ++ [op])) := by
  obtain ⟨i, d, hi, hd, hdc⟩ :=
    owner_located hplaced.interfaces.locations (mem_interfaceOwners.mpr hc)
  have hfound : interfaceLocation (attached placed ops facts) c operation instruction = pure i := by
    simp [interfaceLocation, location, attached, hi]
  have hd' : (ops.filterMap interfaceDecl)[i]? = some d := hd
  have hfired : updateInterface op (interfaceNode ops facts d) =
      interfaceNode ops (facts ++ [op]) d :=
    (interfaceNode_fired (by rw [hdc]; exact htarget)).symm
  have hupdate := Vec.update_map (f := fun node => .ok (updateInterface op node)) hd'
    (congrArg Except.ok hfired)
    (fun j x hj hx => by
      refine (interfaceNode_silent (fun h => ?_) (by simp [htarget]) (by simp [htarget])).symm
      rw [htarget, Option.some.injEq, Target.interface.injEq] at h
      refine Lists.key_ne_of_ne (nodup_interfaces hvalid) hd' hx hj ?_
      rw [hdc, h])
  have hclasses : classNode ops facts = classNode ops (facts ++ [op]) := funext fun x =>
    (classNode_silent (by simp [htarget]) (by simp [htarget]) (by simp [htarget])).symm
  rw [interfaceMut, hfound, pure_bind]
  simp only [attached, hupdate, Fallible.ofRust_ok, pure_bind, hclasses]

/-- A pattern finds its class, or the method its class owns. -/
theorem attachPattern_ok (hvalid : Valid ops) (hplaced : Placed ops placed) {name : String}
    {args : List String} (hop : .pattern name args ∈ ops) (instruction : Nat) :
    attachPattern (attached placed ops facts) instruction name args =
      pure (attached placed ops (facts ++ [.pattern name args])) := by
  have hresolved := hvalid.resolved _ hop
  obtain ⟨target, htarget, rfl⟩ :=
    (Contracts.patternTarget_decides instruction).run hresolved.payload
  rw [attachPattern, htarget, Fallible.ofExcept_ok, pure_bind]
  cases hoperands : patternOperands name args with
  | «class» c =>
      have hclass := classMut_ok facts hvalid hplaced
        (show factTarget (.pattern name args) = some (.class c.raw) by
          simp [factTarget, hoperands])
        (hresolved.targets (.class, c.raw) (by simp [CoreOp.targets, hoperands]))
        "PAT class" instruction
      exact hclass
  | method c m =>
      obtain ⟨dname, hmethod⟩ := hresolved.owner (c.raw, m.raw) (by
        simp [CoreOp.ownership, hoperands])
      obtain ⟨expected, dc, hexpected, hdc, hc⟩ := owner_located hplaced.classes.locations
        (mem_classOwners.mpr (hresolved.targets (.class, c.raw) (by
          simp [CoreOp.targets, hoperands])))
      obtain ⟨loc, hloc⟩ := method_located hvalid hplaced ⟨_, hmethod, rfl⟩
      have hclass : classLocation (attached placed ops facts) c.raw "PAT class" instruction =
          pure expected := by
        simp [classLocation, location, attached, hexpected]
      have hfound : methodLocation (attached placed ops facts) m.raw "PAT method" instruction =
          pure loc := by
        simp [methodLocation, location, attached, hloc]
      dsimp only
      rw [hclass, pure_bind, hfound, pure_bind]
      cases loc with
      | interface i j =>
          obtain ⟨d, e, hd, he, hem⟩ := located_decl hplaced.interfaces.methods.located hloc
          cases interfaceMethod_owner hvalid hmethod rfl (List.mem_of_getElem? he) (by rw [hem])
      | «class» i j =>
          obtain ⟨d, name', hd, hdef, hupdate, hinterfaces⟩ :=
            updateClassMethod_ok facts hvalid hplaced
              (show factTarget (.pattern name args) = some (.method m.raw) by
                simp [factTarget, hoperands]) hloc
          have hsame := hvalid.eq_of_slot hmethod hdef rfl rfl
          simp only [CoreOp.defMethod.injEq] at hsame
          have hidx : i = expected := by
            by_contra hne
            refine Lists.key_ne_of_ne (nodup_classes hvalid) hdc hd hne ?_
            rw [hc]
            exact congrArg ClassId.mk hsame.1.symm
          dsimp only
          rw [if_neg (not_not.mpr hidx)]
          have hupdate' : classMethods.update (attached placed ops facts).classes i j
              (fun m => { m with patterns := m.patterns ++ [{ name, args }] }) = _ := hupdate
          rw [hupdate', Fallible.ofRust_ok, pure_bind]
          simp only [attached, hinterfaces]

theorem attached_silent {op : CoreOp} (h : factTarget op = none) :
    attached placed ops (facts ++ [op]) = attached placed ops facts := by
  have hclasses : classNode ops (facts ++ [op]) = classNode ops facts := funext fun x =>
    classNode_silent (by simp [h]) (by simp [h]) (by simp [h])
  have hinterfaces : interfaceNode ops (facts ++ [op]) = interfaceNode ops facts := funext fun x =>
    interfaceNode_silent (by simp [h]) (by simp [h]) (by simp [h])
  rw [attached, hclasses, hinterfaces, attached]

/-- One instruction of the second pass. -/
theorem attachOp_ok (hvalid : Valid ops) (hplaced : Placed ops placed) {op : CoreOp}
    (hop : op ∈ ops) (instruction : Nat) :
    attachOp (attached placed ops facts) instruction op =
      pure (attached placed ops (facts ++ [op])) := by
  have htargets := (hvalid.resolved op hop).targets
  have hmethod : ∀ m, factTarget op = some (.method m) → (.method, m) ∈ op.targets → ∀ operation,
      methodMut (attached placed ops facts) m operation instruction (updateMethod op) =
        pure (attached placed ops (facts ++ [op])) :=
    fun m h hm operation => methodMut_ok hvalid hplaced h (htargets _ hm) operation instruction
  have hfield : ∀ f, factTarget op = some (.field f) → (.field, f) ∈ op.targets → ∀ operation,
      fieldMut (attached placed ops facts) f operation instruction (updateField op) =
        pure (attached placed ops (facts ++ [op])) :=
    fun f h hf operation => fieldMut_ok hvalid hplaced h (htargets _ hf) operation instruction
  have hclass : ∀ c, factTarget op = some (.class c) → (.class, c) ∈ op.targets → ∀ operation,
      classMut (attached placed ops facts) c operation instruction (updateClass op) =
        pure (attached placed ops (facts ++ [op])) :=
    fun c h hc operation => classMut_ok facts hvalid hplaced h (htargets _ hc) operation instruction
  have hinterface : ∀ i, factTarget op = some (.interface i) → (.interface, i) ∈ op.targets →
      ∀ operation,
      interfaceMut (attached placed ops facts) i operation instruction (updateInterface op) =
        pure (attached placed ops (facts ++ [op])) :=
    fun i h hi operation => interfaceMut_ok hvalid hplaced h (htargets _ hi) operation instruction
  cases op with
  | param m _ _ _ | ret m _ | methodModifiers m _ | controlSummary m _ | patternFacts m _
  | flags m _ | body m _ _ _ | dataFlow m _ _ | controlFlow m _ _ | sideEffect m _
  | executionContext m _ => exact hmethod m rfl List.mem_cons_self _
  | fieldType f _ => exact hfield f rfl List.mem_cons_self _
  | classModifiers c _ | classFlags c _ | classExtends c _ | baseTypeRef c _ | implements c _
  | injects c _ => exact hclass c rfl List.mem_cons_self _
  | interfaceModifiers i _ | interfaceExtends i _ => exact hinterface i rfl List.mem_cons_self _
  | pattern name args => exact attachPattern_ok hvalid hplaced hop instruction
  | _ =>
      rw [attached_silent rfl]
      rfl

variable (facts) in
/-- The second pass, by induction on the instructions left. -/
theorem attachFrom_ok (hvalid : Valid ops) (hplaced : Placed ops placed) (rest : List CoreOp)
    (hrest : ∀ op ∈ rest, op ∈ ops) (i : Nat) :
    attachFrom i rest (attached placed ops facts) =
      pure (attached placed ops (facts ++ rest)) := by
  induction rest generalizing facts i with
  | nil => simp [attachFrom]
  | cons op rest ih =>
      rw [attachFrom, attachOp_ok hvalid hplaced (hrest op List.mem_cons_self) i, pure_bind,
        ih _ (fun o ho => hrest o (List.mem_cons_of_mem _ ho)) (i + 1), List.append_assoc,
        List.singleton_append]

theorem assertPlaced_ok (hvalid : Valid ops) (hplaced : Placed ops placed) :
    assertPlaced placed = .ok () := by
  have hmethods : placed.pendingMethods = ∅ := by
    refine hplaced.classes.methods.queued.eq_empty fun c hne => ?_
    obtain ⟨e, he⟩ := List.exists_mem_of_ne_nil _ hne
    exact class_of_target hvalid (mem_methodDecl.mp he) (by simp [CoreOp.targets])
  have hfields : placed.pendingFields = ∅ := by
    refine hplaced.classes.fields.queued.eq_empty fun c hne => ?_
    obtain ⟨e, he⟩ := List.exists_mem_of_ne_nil _ hne
    exact class_of_target hvalid (mem_fieldDecl.mp he) (by simp [CoreOp.targets])
  have himethods : placed.pendingInterfaceMethods = ∅ := by
    refine hplaced.interfaces.methods.queued.eq_empty fun i hne => ?_
    obtain ⟨e, he⟩ := List.exists_mem_of_ne_nil _ hne
    exact interface_of_target hvalid (mem_interfaceMethodDecl.mp he) (by simp [CoreOp.targets])
  have hifields : placed.pendingInterfaceFields = ∅ := by
    refine hplaced.interfaces.fields.queued.eq_empty fun i hne => ?_
    obtain ⟨e, he⟩ := List.exists_mem_of_ne_nil _ hne
    exact interface_of_target hvalid (mem_interfaceFieldDecl.mp he) (by simp [CoreOp.targets])
  simp [assertPlaced, debugAssert, hmethods, hfields, himethods, hifields]

end Tree

/-- On a valid stream the checked projection is the declarative one. -/
theorem tryIrToHierarchical_eq (ir : CompiledIR) (hvalid : Valid ir.instructions) :
    tryIrToHierarchical ir = pure (project ir.instructions) := by
  obtain ⟨index, hindex, -⟩ := (validateIdentityGraph_decides ir).run hvalid
  obtain ⟨placed, hrun, hplaced⟩ := foldlM_placeOp_ok ir.instructions placed_empty
    (nodup_classes hvalid) (nodup_interfaces hvalid)
  rw [List.nil_append] at hplaced
  have hattach := attachFrom_ok [] hvalid hplaced ir.instructions (fun _ h => h) 0
  rw [attached_nil hplaced, List.nil_append] at hattach
  rw [tryIrToHierarchical, hindex, hrun]
  simp only [Fallible.ofExcept_ok, Fallible.ofRust_ok, pure_bind,
    assertPlaced_ok hvalid hplaced, hattach]
  simp only [attached, project, hplaced.rows.imports, hplaced.rows.typeAliases,
    hplaced.rows.calls]

end Hierarchical
end CleanCtx
