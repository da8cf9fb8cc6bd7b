import CleanCtx.Ir.IdentityCollector
import CleanCtx.Ir.Inheritance

/-!
What the forward-reference pass may do to a stream (`ir/compiler_methods.rs`). Only
inheritance operations change, and a target gives way only to the sole declaration of
the kind that is looked up. Definitions stay where they are, so a second pass finds
every rewritten target among the identifiers and leaves it, and the validator meets
the same definitions and no new singular fact.
-/
namespace CleanCtx

open Aliases

def idsNamed (declared : Declarations) (name : String) : List String :=
  (declared.filter fun declaration => declaration.2 = name).map Prod.fst

/-- The target is no identifier of its kind, and the name of one declaration of it. -/
def RewritesTo (declared : Declarations) (target aliasId : String) : Prop :=
  target ∉ declared.map Prod.fst ∧ idsNamed declared target = [aliasId]

/-- The operations that the pass may change: a new target, or a reference that is refined. -/
inductive Recasts : CoreOp → CoreOp → Prop
  | unchanged (op : CoreOp) : Recasts op op
  | classExtends (child target aliasId : String) :
      Recasts (.classExtends child target) (.classExtends child aliasId)
  | implements (classId target aliasId : String) :
      Recasts (.implements classId target) (.implements classId aliasId)
  | interfaceExtends (child target aliasId : String) :
      Recasts (.interfaceExtends child target) (.interfaceExtends child aliasId)
  | refinedClass (owner writtenType aliasId : String) :
      Recasts (.baseTypeRef owner writtenType) (.classExtends owner aliasId)
  | refinedInterface (owner writtenType aliasId : String) :
      Recasts (.baseTypeRef owner writtenType) (.implements owner aliasId)

/-- The declarations that lead the pass from an operation to another one. -/
inductive Resolves (classes interfaces : Declarations) : CoreOp → CoreOp → Prop
  | unchanged (op : CoreOp) : Resolves classes interfaces op op
  | classExtends {child target aliasId : String} (h : RewritesTo classes target aliasId) :
      Resolves classes interfaces (.classExtends child target) (.classExtends child aliasId)
  | implements {classId target aliasId : String} (h : RewritesTo interfaces target aliasId) :
      Resolves classes interfaces (.implements classId target) (.implements classId aliasId)
  | interfaceExtends {child target aliasId : String} (h : RewritesTo interfaces target aliasId) :
      Resolves classes interfaces (.interfaceExtends child target) (.interfaceExtends child aliasId)
  | refinedClass {owner writtenType aliasId : String}
      (hclass : idsNamed classes writtenType = [aliasId])
      (hinterface : idsNamed interfaces writtenType = []) :
      Resolves classes interfaces (.baseTypeRef owner writtenType) (.classExtends owner aliasId)
  | refinedInterface {owner writtenType aliasId : String}
      (hinterface : idsNamed interfaces writtenType = [aliasId])
      (hclass : idsNamed classes writtenType = []) :
      Resolves classes interfaces (.baseTypeRef owner writtenType) (.implements owner aliasId)

/-- The reference's name has one declaration of one kind and several of the other. -/
def Overloaded (classes interfaces : Declarations) : CoreOp → Prop
  | .baseTypeRef _ writtenType =>
      (idsNamed classes writtenType).length = 1 ∧ 1 < (idsNamed interfaces writtenType).length ∨
      (idsNamed interfaces writtenType).length = 1 ∧ 1 < (idsNamed classes writtenType).length
  | _ => False

/-- The text an inheritance operation may have rewritten. -/
def CoreOp.writtenTarget : CoreOp → Option String
  | .classExtends _ target | .implements _ target | .interfaceExtends _ target
  | .baseTypeRef _ target => some target
  | _ => none

/-- Wherever the pass changes an operation, one declaration of the stream, class or interface,
has the target's name. -/
def RewritesOnlySole (instructions : List CoreOp) : Prop :=
  ∀ op ∈ instructions, ∀ target ∈ op.writtenTarget,
    resolveOp (classDeclarations instructions) (interfaceDeclarations instructions) op ≠ op →
      (idsNamed (classDeclarations instructions ++ interfaceDeclarations instructions)
        target).length = 1

section Names

variable {declared : Declarations} {name : String}

theorem idsNamed_append_singleton (declared : Declarations) (declaration : String × String) :
    idsNamed (declared ++ [declaration]) name =
      idsNamed declared name ++ if declaration.2 = name then [declaration.1] else [] := by
  rw [idsNamed, List.filter_append, List.map_append, idsNamed]
  by_cases h : declaration.2 = name <;> simp [h]

/-- The map's entry for a name is nothing, the one identifier, or the mark of several. -/
theorem nameToAlias_eq (declared : Declarations) (name : String) :
    nameToAlias declared name =
      match idsNamed declared name with
      | [] => none
      | [aliasId] => some (some aliasId)
      | _ => some none := by
  induction declared using List.reverseRecOn with
  | nil => rfl
  | append_singleton declared declaration ih =>
      rw [nameToAlias_append, idsNamed_append_singleton]
      by_cases h : declaration.2 = name
      · subst h
        rw [Function.update_self, ih, if_pos rfl]
        rcases idsNamed declared declaration.2 with _ | ⟨first, _ | ⟨second, rest⟩⟩ <;> rfl
      · rw [Function.update_of_ne (Ne.symm h), if_neg h, List.append_nil, ih]

theorem soleAlias_eq_some_iff {aliasId : String} :
    soleAlias declared name = some aliasId ↔ idsNamed declared name = [aliasId] := by
  rw [soleAlias, nameToAlias_eq]
  rcases idsNamed declared name with _ | ⟨first, _ | ⟨second, rest⟩⟩ <;> simp

theorem soleAlias_eq_none_iff :
    soleAlias declared name = none ↔ (idsNamed declared name).length ≠ 1 := by
  rw [soleAlias, nameToAlias_eq]
  rcases idsNamed declared name with _ | ⟨first, _ | ⟨second, rest⟩⟩ <;> simp

theorem mem_ids_of_soleAlias {aliasId : String} (h : soleAlias declared name = some aliasId) :
    aliasId ∈ declared.map Prod.fst :=
  List.mem_map_of_mem (f := Prod.fst) (mem_of_soleAlias h)

end Names

section Pass

variable {classes interfaces declared : Declarations}

/-- Either the target stays, or it gives way to the sole declaration it names. -/
theorem resolveTarget_cases (declared : Declarations) (target : String) :
    resolveTarget declared target = target ∨
      RewritesTo declared target (resolveTarget declared target) := by
  by_cases hid : target ∈ declared.map Prod.fst
  · exact .inl (if_pos hid)
  · rw [resolveTarget, if_neg hid]
    cases hsole : soleAlias declared target with
    | none => exact .inl rfl
    | some aliasId => exact .inr ⟨hid, soleAlias_eq_some_iff.mp hsole⟩

theorem recasts_resolveOp (classes interfaces : Declarations) (op : CoreOp) :
    Recasts op (resolveOp classes interfaces op) := by
  cases op with
  | classExtends child target => exact .classExtends child target _
  | implements classId target => exact .implements classId target _
  | interfaceExtends child target => exact .interfaceExtends child target _
  | baseTypeRef owner writtenType =>
      rw [resolveOp]
      split
      · exact .refinedClass owner writtenType _
      · exact .refinedInterface owner writtenType _
      · exact .unchanged _
  | _ => exact .unchanged _

theorem resolves_resolveOp {op : CoreOp} (h : ¬ Overloaded classes interfaces op) :
    Resolves classes interfaces op (resolveOp classes interfaces op) := by
  cases op with
  | classExtends child target =>
      obtain h | h := resolveTarget_cases classes target
      · rw [resolveOp, h]
        exact .unchanged _
      · exact .classExtends h
  | implements classId target =>
      obtain h | h := resolveTarget_cases interfaces target
      · rw [resolveOp, h]
        exact .unchanged _
      · exact .implements h
  | interfaceExtends child target =>
      obtain h | h := resolveTarget_cases interfaces target
      · rw [resolveOp, h]
        exact .unchanged _
      · exact .interfaceExtends h
  | baseTypeRef owner writtenType =>
      obtain ⟨hinterfaces, hclasses⟩ := not_or.mp h
      -- No declaration of the other kind is left once one and several are excluded.
      have hnone : ∀ {one other : Declarations} {aliasId : String},
          soleAlias one writtenType = some aliasId → soleAlias other writtenType = none →
          ¬((idsNamed one writtenType).length = 1 ∧ 1 < (idsNamed other writtenType).length) →
          idsNamed other writtenType = [] := by
        intro one other aliasId hone hother hseveral
        have hlength : (idsNamed one writtenType).length = 1 := by
          rw [soleAlias_eq_some_iff.mp hone, List.length_singleton]
        have hne := soleAlias_eq_none_iff.mp hother
        exact List.length_eq_zero_iff.mp (by omega)
      rw [resolveOp]
      split
      · rename_i hclass hinterface
        exact .refinedClass (soleAlias_eq_some_iff.mp hclass) (hnone hclass hinterface hinterfaces)
      · rename_i hclass hinterface
        exact .refinedInterface (soleAlias_eq_some_iff.mp hinterface)
          (hnone hinterface hclass hclasses)
      · exact .unchanged _
  | _ => exact .unchanged _

theorem resolveTarget_of_mem {target : String} (h : target ∈ declared.map Prod.fst) :
    resolveTarget declared target = target :=
  if_pos h

theorem resolveTarget_idem (declared : Declarations) (target : String) :
    resolveTarget declared (resolveTarget declared target) = resolveTarget declared target := by
  by_cases hid : target ∈ declared.map Prod.fst
  · rw [resolveTarget_of_mem hid, resolveTarget_of_mem hid]
  · cases hsole : soleAlias declared target with
    | none =>
        have hkept : resolveTarget declared target = target := by
          rw [resolveTarget, if_neg hid, hsole, Option.getD_none]
        rw [hkept, hkept]
    | some aliasId =>
        have hnew : resolveTarget declared target = aliasId := by
          rw [resolveTarget, if_neg hid, hsole, Option.getD_some]
        rw [hnew, resolveTarget_of_mem (mem_ids_of_soleAlias hsole)]

theorem resolveOp_idem (classes interfaces : Declarations) (op : CoreOp) :
    resolveOp classes interfaces (resolveOp classes interfaces op) =
      resolveOp classes interfaces op := by
  cases op with
  | classExtends child target =>
      exact congrArg (CoreOp.classExtends child) (resolveTarget_idem classes target)
  | implements classId target =>
      exact congrArg (CoreOp.implements classId) (resolveTarget_idem interfaces target)
  | interfaceExtends child target =>
      exact congrArg (CoreOp.interfaceExtends child) (resolveTarget_idem interfaces target)
  | baseTypeRef owner writtenType =>
      cases hclass : soleAlias classes writtenType with
      | none =>
          cases hinterface : soleAlias interfaces writtenType with
          | none => simp only [resolveOp, hclass, hinterface]
          | some aliasId =>
              simp only [resolveOp, hclass, hinterface]
              rw [resolveTarget_of_mem (mem_ids_of_soleAlias hinterface)]
      | some aliasId =>
          cases hinterface : soleAlias interfaces writtenType with
          | none =>
              simp only [resolveOp, hclass, hinterface]
              rw [resolveTarget_of_mem (mem_ids_of_soleAlias hclass)]
          | some other => simp only [resolveOp, hclass, hinterface]
  | _ => rfl

theorem resolveForwardAliases_idem (instructions : List CoreOp) :
    resolveForwardAliases (resolveForwardAliases instructions) =
      resolveForwardAliases instructions := by
  conv_lhs => rw [resolveForwardAliases]
  rw [classDeclarations_resolve, interfaceDeclarations_resolve]
  rw [resolveForwardAliases, List.map_map]
  exact List.map_congr_left fun op _ => resolveOp_idem _ _ op

end Pass

section Validator

/-- The validator reads the owner of an inheritance operation, never its target. -/
theorem Recasts.resolved {op op' : CoreOp} (h : Recasts op op')
    {ops : List CoreOp} (hop : op.Resolved ops) : op'.Resolved ops := by
  cases h <;> exact ⟨hop.targets, hop.payload, hop.owner⟩

theorem Recasts.definition {op op' : CoreOp} (h : Recasts op op') :
    op'.definition = op.definition := by
  cases h <;> rfl

theorem Recasts.requiredIds {op op' : CoreOp} (h : Recasts op op') :
    op'.requiredIds = op.requiredIds := by
  cases h <;> rfl

theorem Recasts.defMethod {op op' : CoreOp} (h : Recasts op op')
    {classId methodId name : String} (hop : op = .defMethod classId methodId name) :
    op' = .defMethod classId methodId name := by
  cases h <;> first | exact hop | cases hop

/-- A refined reference may give up its singular fact, no operation takes a new one. -/
theorem Recasts.slot {op op' : CoreOp} (h : Recasts op op') :
    op'.slot = op.slot ∨ op'.slot = none := by
  cases h with
  | refinedInterface => exact .inr rfl
  | _ => exact .inl rfl

theorem slots_map_sublist {f : CoreOp → CoreOp}
    (h : ∀ op, (f op).slot = op.slot ∨ (f op).slot = none) (ops : List CoreOp) :
    (slots (ops.map f)).Sublist (slots ops) := by
  induction ops with
  | nil => exact List.Sublist.slnil
  | cons op ops ih =>
      rw [slots, slots, List.map_cons, List.filterMap_cons, List.filterMap_cons]
      obtain hsame | hnone := h op
      · rw [hsame]
        cases op.slot with
        | none => exact ih
        | some s => exact ih.cons_cons s
      · rw [hnone]
        cases op.slot with
        | none => exact ih
        | some s => exact ih.cons s

theorem Valid.map_recasts {ops : List CoreOp} {f : CoreOp → CoreOp}
    (hf : ∀ op, Recasts op (f op)) (h : Valid ops) : Valid (ops.map f) := by
  have hdeclares : ∀ {kind id}, Declares ops kind id → Declares (ops.map f) kind id := by
    rintro kind id ⟨op, hop, hdef⟩
    exact ⟨f op, List.mem_map_of_mem hop, (hf op).definition.trans hdef⟩
  have howns : ∀ {c m}, Owns ops c m → Owns (ops.map f) c m := by
    rintro c m ⟨name, hop⟩
    exact ⟨name, List.mem_map.mpr ⟨_, hop, (hf _).defMethod rfl⟩⟩
  refine ⟨fun op' hop' => ?_, h.unique.sublist (slots_map_sublist (fun op => (hf op).slot) ops),
    fun op' hop' => ?_⟩
  · obtain ⟨op, hop, rfl⟩ := List.mem_map.mp hop'
    rw [(hf op).requiredIds]
    exact h.named op hop
  · obtain ⟨op, hop, rfl⟩ := List.mem_map.mp hop'
    have hresolved := (hf op).resolved (h.resolved op hop)
    exact ⟨fun t ht => hdeclares (hresolved.targets t ht), hresolved.payload,
      fun o ho => howns (hresolved.owner o ho)⟩

end Validator

def Accepted (ir : CompiledIR) : Prop := ∃ index, validateIdentityGraph ir = .ok index

def aliasResolution (ir : CompiledIR) : CompiledIR :=
  { ir with instructions := resolveForwardAliases ir.instructions }

theorem Accepted.aliasResolution {ir : CompiledIR} (h : Accepted ir) :
    Accepted (aliasResolution ir) :=
  validateIdentityGraph_iff.mpr
    ((validateIdentityGraph_iff.mp h).map_recasts fun op => recasts_resolveOp _ _ op)

/-- The pass is safe: it changes inheritance operations only, by a new target or a refined
reference; outside overloaded references it does no more than resolve sole names of the right
kind; a second pass changes nothing, and an accepted stream stays accepted. -/
theorem aliasResolution_safe (ir : CompiledIR) :
    List.Forall₂ Recasts ir.instructions (aliasResolution ir).instructions ∧
      List.Forall₂
        (fun op op' =>
          ¬ Overloaded (classDeclarations ir.instructions) (interfaceDeclarations ir.instructions)
              op →
            Resolves (classDeclarations ir.instructions) (interfaceDeclarations ir.instructions)
              op op')
        ir.instructions (aliasResolution ir).instructions ∧
      aliasResolution (aliasResolution ir) = aliasResolution ir ∧
      (Accepted ir → Accepted (aliasResolution ir)) := by
  refine ⟨?_, ?_, ?_, fun h => h.aliasResolution⟩
  · rw [aliasResolution, resolveForwardAliases, List.forall₂_map_right_iff]
    exact List.forall₂_same.mpr fun op _ => recasts_resolveOp _ _ op
  · rw [aliasResolution, resolveForwardAliases, List.forall₂_map_right_iff]
    exact List.forall₂_same.mpr fun op _ => resolves_resolveOp
  · rw [aliasResolution, aliasResolution, resolveForwardAliases_idem]

/-- The interface is declared after the class that names it. -/
def forwardReference : CompiledIR where
  fileId := "worker.cs"
  instructions :=
    [.defClass "C1" "Worker", .baseTypeRef "C1" "IWorker", .defInterface "I1" "IWorker"]
  version := 1

theorem aliasResolution_safe_forwardReference :
    (aliasResolution forwardReference).instructions =
        [.defClass "C1" "Worker", .implements "C1" "I1", .defInterface "I1" "IWorker"] ∧
      Accepted (aliasResolution forwardReference) :=
  ⟨by decide, (aliasResolution_safe forwardReference).2.2.2 ⟨_, rfl⟩⟩

/-- A class and an interface share a name; the class that extends it is led to the class. -/
def mergedDeclarations : List CoreOp :=
  [.defClass "C1" "Shape", .defInterface "I1" "Shape", .defClass "C2" "Circle",
    .classExtends "C2" "Shape"]

theorem not_rewritesOnlySole : ¬RewritesOnlySole mergedDeclarations := by
  intro h
  exact absurd (h (.classExtends "C2" "Shape") (by decide) "Shape" rfl (by decide)) (by decide)

end CleanCtx
