import CleanCtx.Ir.Opcodes
import CleanCtx.Library.Aliases
import CleanCtx.Library.Lists
import CleanCtx.Workspace.Index
import Mathlib.Data.List.Forall2

/-!
Inheritance through aliasing (`ir/compiler_methods.rs`, `ir/semantic_projection.rs`).
Forward references are rewritten from written names to identifiers, and the projection
turns identifiers back into names. Both kinds of text share one operand, so a written
name that is also an identifier comes back as the name of that declaration.
-/
namespace CleanCtx

open Aliases

def builtinDomain : String := "builtin"
def classEntityType : String := "Class"
def interfaceEntityType : String := "Interface"
def typeRefEntityType : String := "TypeRef"
def builtinLayer : String := "builtin"

abbrev Declarations := List (String × String)

def classDeclaration : CoreOp → Option (String × String)
  | .defClass id name => some (id, name)
  | _ => none

def interfaceDeclaration : CoreOp → Option (String × String)
  | .defInterface id name => some (id, name)
  | _ => none

def classDeclarations (instructions : List CoreOp) : Declarations :=
  instructions.filterMap classDeclaration

def interfaceDeclarations (instructions : List CoreOp) : Declarations :=
  instructions.filterMap interfaceDeclaration

def resolveTarget (declared : Declarations) (target : String) : String :=
  if target ∈ declared.map Prod.fst then target else (soleAlias declared target).getD target

def resolveOp (classes interfaces : Declarations) : CoreOp → CoreOp
  | .baseTypeRef owner writtenType =>
      match soleAlias classes writtenType, soleAlias interfaces writtenType with
      | some aliasId, none => .classExtends owner aliasId
      | none, some aliasId => .implements owner aliasId
      | _, _ => .baseTypeRef owner writtenType
  | .classExtends child target => .classExtends child (resolveTarget classes target)
  | .implements classId target => .implements classId (resolveTarget interfaces target)
  | .interfaceExtends child target => .interfaceExtends child (resolveTarget interfaces target)
  | op => op

def resolveForwardAliases (instructions : List CoreOp) : List CoreOp :=
  instructions.map
    (resolveOp (classDeclarations instructions) (interfaceDeclarations instructions))

def namedEntity (entityType name file : String) : EntityRef :=
  ⟨builtinDomain, entityType, name, some file⟩

def declaredName (declared : Declarations) : String → Option String :=
  collect (declared.filter fun declaration => declaration.2 ≠ "")

def inheritanceEdge (classes interfaces : Declarations) (file : String) :
    CoreOp → Option SemanticEdge
  | .classExtends owner target => do
      let name ← declaredName classes owner
      some ⟨.extends, namedEntity classEntityType name file,
        namedEntity classEntityType ((declaredName classes target).getD target) file,
        builtinLayer, none⟩
  | .implements owner target => do
      let name ← declaredName classes owner
      some ⟨.implements, namedEntity classEntityType name file,
        namedEntity interfaceEntityType
          (((declaredName interfaces target).or (declaredName classes target)).getD target) file,
        builtinLayer, none⟩
  | .interfaceExtends owner target => do
      let name ← declaredName interfaces owner
      some ⟨.extends, namedEntity interfaceEntityType name file,
        namedEntity interfaceEntityType ((declaredName interfaces target).getD target) file,
        builtinLayer, none⟩
  | .baseTypeRef owner writtenType => do
      let name ← declaredName classes owner
      some ⟨.hasBaseType, namedEntity classEntityType name file,
        namedEntity typeRefEntityType writtenType file, builtinLayer, none⟩
  | _ => none

def projectInheritance (instructions : List CoreOp) (file : String) : List SemanticEdge :=
  instructions.filterMap
    (inheritanceEdge (classDeclarations instructions) (interfaceDeclarations instructions) file)

def isInheritance : CoreOp → Bool
  | .classExtends .. | .implements .. | .interfaceExtends .. | .baseTypeRef .. => true
  | _ => false

/-- The edge leads from the declared name of the operation's owner to the type it names. -/
def Says (instructions : List CoreOp) (edge : SemanticEdge) : CoreOp → Prop
  | .classExtends owner target | .implements owner target | .baseTypeRef owner target =>
      .defClass owner edge.subject.name ∈ instructions ∧ edge.object.name = target
  | .interfaceExtends owner target =>
      .defInterface owner edge.subject.name ∈ instructions ∧ edge.object.name = target
  | _ => False

/-- One edge for each inheritance operation, and each says what its operation says. -/
def SurvivesAliasing (instructions : List CoreOp) (file : String) : Prop :=
  List.Forall₂ (fun op edge => Says instructions edge op) (instructions.filter isInheritance)
    (projectInheritance (resolveForwardAliases instructions) file)

def Named (declared : Declarations) (owner : String) : Prop :=
  ∃ name, name ≠ "" ∧ (owner, name) ∈ declared

/-- No declaration with another name has the text as its identifier. -/
def SpellsItself (declared : Declarations) (target : String) : Prop :=
  ∀ name, (target, name) ∈ declared → name = target ∨ name = ""

/-- The empty text would be read as the only declaration without a name. -/
def NamesUnnamed (declared : Declarations) (target : String) : Prop :=
  target = "" ∧ ∃ aliasId, soleAlias declared target = some aliasId ∧ aliasId ≠ ""

/-- The owner is declared with a name, and the written target comes back as it is. -/
def Settled (classes interfaces : Declarations) : CoreOp → Prop
  | .classExtends owner target =>
      Named classes owner ∧ SpellsItself classes target ∧ ¬NamesUnnamed classes target
  | .interfaceExtends owner target =>
      Named interfaces owner ∧ SpellsItself interfaces target ∧ ¬NamesUnnamed interfaces target
  | .implements owner target =>
      Named classes owner ∧ SpellsItself interfaces target ∧ ¬NamesUnnamed interfaces target ∧
        (soleAlias interfaces target = none → SpellsItself classes target)
  | .baseTypeRef owner target =>
      Named classes owner ∧
        (soleAlias interfaces target = none → ¬NamesUnnamed classes target) ∧
        (soleAlias classes target = none → ¬NamesUnnamed interfaces target)
  | _ => True

theorem declaration_resolveOp (classes interfaces : Declarations) (op : CoreOp) :
    classDeclaration (resolveOp classes interfaces op) = classDeclaration op ∧
      interfaceDeclaration (resolveOp classes interfaces op) = interfaceDeclaration op := by
  cases op with
  | baseTypeRef owner target =>
      simp only [resolveOp]
      split <;> exact ⟨rfl, rfl⟩
  | _ => exact ⟨rfl, rfl⟩

theorem classDeclarations_resolve (instructions : List CoreOp) :
    classDeclarations (resolveForwardAliases instructions) = classDeclarations instructions := by
  rw [classDeclarations, resolveForwardAliases, List.filterMap_map]
  exact List.filterMap_congr fun op _ => (declaration_resolveOp _ _ op).1

theorem interfaceDeclarations_resolve (instructions : List CoreOp) :
    interfaceDeclarations (resolveForwardAliases instructions) =
      interfaceDeclarations instructions := by
  rw [interfaceDeclarations, resolveForwardAliases, List.filterMap_map]
  exact List.filterMap_congr fun op _ => (declaration_resolveOp _ _ op).2

theorem projectInheritance_resolve (instructions : List CoreOp) (file : String) :
    projectInheritance (resolveForwardAliases instructions) file =
      instructions.filterMap fun op =>
        inheritanceEdge (classDeclarations instructions) (interfaceDeclarations instructions) file
          (resolveOp (classDeclarations instructions) (interfaceDeclarations instructions) op) := by
  rw [projectInheritance, classDeclarations_resolve, interfaceDeclarations_resolve,
    resolveForwardAliases, List.filterMap_map]
  rfl

theorem mem_classDeclarations {instructions : List CoreOp} {id name : String} :
    (id, name) ∈ classDeclarations instructions ↔ .defClass id name ∈ instructions := by
  simp only [classDeclarations, List.mem_filterMap]
  constructor
  · rintro ⟨op, hop, h⟩
    cases op <;> cases h
    exact hop
  · exact fun h => ⟨_, h, rfl⟩

theorem mem_interfaceDeclarations {instructions : List CoreOp} {id name : String} :
    (id, name) ∈ interfaceDeclarations instructions ↔ .defInterface id name ∈ instructions := by
  simp only [interfaceDeclarations, List.mem_filterMap]
  constructor
  · rintro ⟨op, hop, h⟩
    cases op <;> cases h
    exact hop
  · exact fun h => ⟨_, h, rfl⟩

section

variable {declared : Declarations} (hids : (declared.map Prod.fst).Nodup)
include hids

theorem declaredName_eq_some_iff {id name : String} :
    declaredName declared id = some name ↔ name ≠ "" ∧ (id, name) ∈ declared := by
  have hkept : ((declared.filter fun declaration => declaration.2 ≠ "").map Prod.fst).Nodup :=
    hids.sublist (List.filter_sublist.map _)
  rw [declaredName, collect_eq_some_iff hkept, List.mem_filter, decide_eq_true_iff, and_comm]

theorem getD_declaredName_eq_iff (text : String) :
    (declaredName declared text).getD text = text ↔ SpellsItself declared text := by
  constructor
  · intro h name hname
    by_cases hempty : name = ""
    · exact Or.inr hempty
    · rw [(declaredName_eq_some_iff hids).mpr ⟨hempty, hname⟩, Option.getD_some] at h
      exact Or.inl h
  · intro h
    cases hname : declaredName declared text with
    | none => rfl
    | some name =>
        obtain ⟨hempty, hmem⟩ := (declaredName_eq_some_iff hids).mp hname
        exact (h name hmem).resolve_right hempty

/-- The name of the sole declaration of a written name is that name, unless it is empty. -/
theorem declaredName_of_soleAlias {target aliasId : String}
    (halias : soleAlias declared target = some aliasId) (htarget : target ≠ "") :
    declaredName declared aliasId = some target :=
  (declaredName_eq_some_iff hids).mpr ⟨htarget, mem_of_soleAlias halias⟩

theorem declaredName_of_unnamed {aliasId : String}
    (halias : soleAlias declared "" = some aliasId) : declaredName declared aliasId = none := by
  cases hname : declaredName declared aliasId with
  | none => rfl
  | some name =>
      obtain ⟨hempty, hmem⟩ := (declaredName_eq_some_iff hids).mp hname
      have hunnamed : collect declared aliasId = some "" := collect_of_mem hids (mem_of_soleAlias halias)
      rw [collect_of_mem hids hmem, Option.some.injEq] at hunnamed
      exact absurd hunnamed hempty

/-- The projection of an identifier taken for a written name is that name, the empty one apart. -/
theorem getD_declaredName_of_soleAlias {target aliasId : String}
    (halias : soleAlias declared target = some aliasId) :
    (declaredName declared aliasId).getD aliasId = target ↔ ¬NamesUnnamed declared target := by
  by_cases htarget : target = ""
  · subst htarget
    rw [declaredName_of_unnamed hids halias, Option.getD_none]
    refine ⟨fun h hunnamed => ?_, fun h => ?_⟩
    · obtain ⟨-, aliasId', halias', hne⟩ := hunnamed
      exact hne (Option.some.inj (halias'.symm.trans halias) ▸ h)
    · exact Classical.not_not.mp fun hne => h ⟨rfl, aliasId, halias, hne⟩
  · rw [declaredName_of_soleAlias hids halias htarget, Option.getD_some]
    exact iff_of_true rfl fun hunnamed => htarget hunnamed.1

end

theorem not_namesUnnamed_of_none {declared : Declarations} {target : String}
    (h : soleAlias declared target = none) : ¬NamesUnnamed declared target := by
  rintro ⟨rfl, aliasId, halias, -⟩
  rw [h] at halias
  cases halias

theorem spellsItself_of_not_mem {declared : Declarations} {target : String}
    (h : target ∉ declared.map Prod.fst) : SpellsItself declared target :=
  fun _ hname => absurd (List.mem_map_of_mem hname) h

theorem not_namesUnnamed_of_mem {declared : Declarations} {target : String}
    (hmem : target ∈ declared.map Prod.fst) (h : SpellsItself declared target) :
    ¬NamesUnnamed declared target := by
  rintro ⟨rfl, aliasId, halias, hne⟩
  obtain ⟨⟨_, name⟩, hname, rfl⟩ := List.mem_map.mp hmem
  have hempty : name = "" := (h name hname).elim id id
  exact hne (eq_of_soleAlias halias (hempty ▸ hname)).symm

/-- A rewritten target comes back through the map of its own kind. -/
theorem getD_resolveTarget {declared : Declarations} (hids : (declared.map Prod.fst).Nodup)
    (target : String) :
    (declaredName declared (resolveTarget declared target)).getD (resolveTarget declared target) =
      target ↔ SpellsItself declared target ∧ ¬NamesUnnamed declared target := by
  by_cases hmem : target ∈ declared.map Prod.fst
  · rw [resolveTarget, if_pos hmem, getD_declaredName_eq_iff hids]
    exact ⟨fun h => ⟨h, not_namesUnnamed_of_mem hmem h⟩, And.left⟩
  · rw [resolveTarget, if_neg hmem]
    have hspells := spellsItself_of_not_mem hmem
    cases halias : soleAlias declared target with
    | none =>
        rw [Option.getD_none, getD_declaredName_eq_iff hids]
        exact ⟨fun h => ⟨h, not_namesUnnamed_of_none halias⟩, And.left⟩
    | some aliasId =>
        rw [Option.getD_some, getD_declaredName_of_soleAlias hids halias]
        exact ⟨fun h => ⟨hspells, h⟩, And.right⟩

theorem declaredName_of_not_mem {declared : Declarations} {text : String}
    (h : text ∉ declared.map Prod.fst) : declaredName declared text = none := by
  cases hname : declaredName declared text with
  | none => rfl
  | some name =>
      have hmem := (List.mem_filter.mp (mem_of_collect hname)).1
      exact absurd (List.mem_map_of_mem hmem) h

section

variable {classes interfaces : Declarations}
  (hids : ((classes ++ interfaces).map Prod.fst).Nodup)
include hids

theorem classIds_nodup : (classes.map Prod.fst).Nodup := by
  rw [List.map_append, List.nodup_append] at hids
  exact hids.1

theorem interfaceIds_nodup : (interfaces.map Prod.fst).Nodup := by
  rw [List.map_append, List.nodup_append] at hids
  exact hids.2.1

theorem not_mem_classIds {id : String} (h : id ∈ interfaces.map Prod.fst) :
    id ∉ classes.map Prod.fst := by
  rw [List.map_append, List.nodup_append] at hids
  exact fun hclass => hids.2.2 id hclass id h rfl

/-- An interface target also falls back to the classes, where it matters only unresolved. -/
theorem getD_resolveTarget_implements (target : String) :
    ((declaredName interfaces (resolveTarget interfaces target)).or
        (declaredName classes (resolveTarget interfaces target))).getD
          (resolveTarget interfaces target) = target ↔
      SpellsItself interfaces target ∧ ¬NamesUnnamed interfaces target ∧
        (soleAlias interfaces target = none → SpellsItself classes target) := by
  have hclass : ∀ id ∈ interfaces.map Prod.fst, declaredName classes id = none := fun id hid =>
    declaredName_of_not_mem (not_mem_classIds hids hid)
  by_cases hmem : target ∈ interfaces.map Prod.fst
  · rw [resolveTarget, if_pos hmem, hclass target hmem, Option.or_none,
      getD_declaredName_eq_iff (interfaceIds_nodup hids)]
    exact ⟨fun h => ⟨h, not_namesUnnamed_of_mem hmem h,
      fun _ => spellsItself_of_not_mem (not_mem_classIds hids hmem)⟩, And.left⟩
  · rw [resolveTarget, if_neg hmem]
    have hspells := spellsItself_of_not_mem hmem
    cases halias : soleAlias interfaces target with
    | none =>
        rw [Option.getD_none, declaredName_of_not_mem hmem, Option.none_or,
          getD_declaredName_eq_iff (classIds_nodup hids)]
        exact ⟨fun h => ⟨hspells, not_namesUnnamed_of_none halias, fun _ => h⟩,
          fun h => h.2.2 rfl⟩
    | some aliasId =>
        have hid : aliasId ∈ interfaces.map Prod.fst :=
          List.mem_map_of_mem (mem_of_soleAlias halias)
        rw [Option.getD_some, hclass aliasId hid, Option.or_none,
          getD_declaredName_of_soleAlias (interfaceIds_nodup hids) halias]
        exact ⟨fun h => ⟨hspells, h, fun hnone => by cases hnone⟩, fun h => h.2.1⟩

end

/-- An edge exists for a named owner, and says the target if its object's name is the target. -/
theorem exists_edge_iff {declared : Declarations} (hids : (declared.map Prod.fst).Nodup)
    {owner target object : String} {edgeFrom : String → SemanticEdge}
    (hsubject : ∀ name, (edgeFrom name).subject.name = name)
    (hobject : ∀ name, (edgeFrom name).object.name = object) :
    (∃ edge, (declaredName declared owner).bind (fun name => some (edgeFrom name)) = some edge ∧
      (owner, edge.subject.name) ∈ declared ∧ edge.object.name = target) ↔
      Named declared owner ∧ object = target := by
  constructor
  · rintro ⟨edge, hedge, hdeclared, htarget⟩
    obtain ⟨name, hname, hedge⟩ := Option.bind_eq_some_iff.mp hedge
    cases hedge
    exact ⟨⟨name, (declaredName_eq_some_iff hids).mp hname⟩, (hobject name).symm.trans htarget⟩
  · rintro ⟨⟨name, hnamed⟩, htarget⟩
    refine ⟨edgeFrom name, ?_, (hsubject name).symm ▸ hnamed.2, (hobject name).trans htarget⟩
    rw [(declaredName_eq_some_iff hids).mpr hnamed, Option.bind_some]

section

variable {instructions : List CoreOp}
  (hids : ((classDeclarations instructions ++ interfaceDeclarations instructions).map
    Prod.fst).Nodup)
include hids

/-- What becomes of one operation, for each kind of inheritance. -/
theorem says_iff_settled (file : String) (op : CoreOp) (hop : isInheritance op = true) :
    (∃ edge, inheritanceEdge (classDeclarations instructions) (interfaceDeclarations instructions)
        file (resolveOp (classDeclarations instructions) (interfaceDeclarations instructions) op) =
          some edge ∧ Says instructions edge op) ↔
      Settled (classDeclarations instructions) (interfaceDeclarations instructions) op := by
  have hclass := classIds_nodup hids
  have hinterface := interfaceIds_nodup hids
  cases op with
  | classExtends owner target =>
      simp only [resolveOp, inheritanceEdge, Says, Settled, ← mem_classDeclarations]
      rw [← getD_resolveTarget hclass]
      exact exists_edge_iff hclass (fun _ => rfl) fun _ => rfl
  | interfaceExtends owner target =>
      simp only [resolveOp, inheritanceEdge, Says, Settled, ← mem_interfaceDeclarations]
      rw [← getD_resolveTarget hinterface]
      exact exists_edge_iff hinterface (fun _ => rfl) fun _ => rfl
  | implements owner target =>
      simp only [resolveOp, inheritanceEdge, Says, Settled, ← mem_classDeclarations]
      rw [← getD_resolveTarget_implements hids]
      exact exists_edge_iff hclass (fun _ => rfl) fun _ => rfl
  | baseTypeRef owner target =>
      simp only [resolveOp, Says, Settled, ← mem_classDeclarations]
      cases hc : soleAlias (classDeclarations instructions) target with
      | none =>
          cases hi : soleAlias (interfaceDeclarations instructions) target with
          | none =>
              refine Iff.trans (exists_edge_iff hclass (fun _ => rfl) fun _ => rfl) ?_
              simp [not_namesUnnamed_of_none hc, not_namesUnnamed_of_none hi]
          | some aliasId =>
              have hid : aliasId ∈ (interfaceDeclarations instructions).map Prod.fst :=
                List.mem_map_of_mem (mem_of_soleAlias hi)
              have hback := getD_declaredName_of_soleAlias hinterface hi
              rw [← Option.or_none (o := declaredName _ aliasId),
                ← declaredName_of_not_mem (not_mem_classIds hids hid)] at hback
              refine Iff.trans (exists_edge_iff hclass (fun _ => rfl) fun _ => rfl)
                (and_congr_right' (hback.trans ?_))
              simp
      | some aliasId =>
          cases hi : soleAlias (interfaceDeclarations instructions) target with
          | none =>
              have hback := getD_declaredName_of_soleAlias hclass hc
              refine Iff.trans (exists_edge_iff hclass (fun _ => rfl) fun _ => rfl)
                (and_congr_right' (hback.trans ?_))
              simp
          | some _ =>
              refine Iff.trans (exists_edge_iff hclass (fun _ => rfl) fun _ => rfl) ?_
              simp
  | _ => cases hop

/-- Aliasing keeps the inheritance of a stream exactly if every owner has a declared name and
every written target comes back as it was written. -/
theorem survivesAliasing_iff (file : String) :
    SurvivesAliasing instructions file ↔ ∀ op ∈ instructions,
      Settled (classDeclarations instructions) (interfaceDeclarations instructions) op := by
  have hskip : ∀ op, isInheritance op = false → inheritanceEdge (classDeclarations instructions)
      (interfaceDeclarations instructions) file (resolveOp (classDeclarations instructions)
        (interfaceDeclarations instructions) op) = none := by
    intro op hop
    cases op <;> first | rfl | cases hop
  rw [SurvivesAliasing, projectInheritance_resolve, Lists.forall₂_filter_filterMap hskip]
  refine forall₂_congr fun op _ => ?_
  by_cases hop : isInheritance op = true
  · rw [← says_iff_settled hids file op hop]
    exact ⟨fun h => h hop, fun h _ => h⟩
  · refine iff_of_true (fun h => absurd h hop) ?_
    cases op <;> trivial

end

/-- A forward reference, a written name without a declaration and a base of unknown kind. -/
theorem survivesAliasing_forward : SurvivesAliasing
    [.defClass "C1" "Shape", .classExtends "C1" "Base", .implements "C1" "Drawable",
      .baseTypeRef "C1" "Base", .defClass "C2" "Base"] "α1" := by
  have hclass : ∀ target, target ≠ "C1" → target ≠ "C2" →
      SpellsItself [("C1", "Shape"), ("C2", "Base")] target := by
    intro target h1 h2 name hname
    simp [h1, h2] at hname
  have hnamed : Named [("C1", "Shape"), ("C2", "Base")] "C1" := ⟨"Shape", by decide, by simp⟩
  have hunnamed : ∀ declared target, target ≠ "" → ¬NamesUnnamed declared target :=
    fun _ _ htarget h => htarget h.1
  refine (survivesAliasing_iff (by decide) "α1").mpr ?_
  simp only [List.forall_mem_cons, Settled]
  refine ⟨trivial, ⟨hnamed, hclass _ (by decide) (by decide), hunnamed _ _ (by decide)⟩,
    ⟨hnamed, fun _ h => absurd (show (_, _) ∈ ([] : Declarations) from h) List.not_mem_nil,
      hunnamed _ _ (by decide),
      fun _ => hclass _ (by decide) (by decide)⟩,
    ⟨hnamed, fun _ => hunnamed _ _ (by decide), fun _ => hunnamed _ _ (by decide)⟩, trivial, ?_⟩
  exact fun op hop => absurd hop List.not_mem_nil

/-- A class may extend a type that is written like the identifier of another class. -/
theorem not_survivesAliasing_written :
    ((classDeclarations [.defClass "C1" "A", .defClass "C2" "B", .classExtends "C1" "C2"] ++
      interfaceDeclarations [.defClass "C1" "A", .defClass "C2" "B",
        .classExtends "C1" "C2"]).map Prod.fst).Nodup ∧
    ¬SurvivesAliasing [.defClass "C1" "A", .defClass "C2" "B", .classExtends "C1" "C2"] "α1" := by
  refine ⟨by decide, fun h => ?_⟩
  have htarget := (List.forall₂_cons.mp h).1.2
  exact absurd htarget (by decide)

end CleanCtx
