import Mathlib.Data.List.Basic
import CleanCtx.Ir.Wire

/-!
When a tuple decodes back to its operation. The condition is on the payload
alone: variadic payloads are non-empty, accessor facts carry a property and a
body span is present on both sides or on neither.
-/
namespace CleanCtx

namespace PatternFact

def Named : PatternFact → Prop
  | getter property | setter property => property ≠ ""
  | _ => True

instance : DecidablePred Named
  | getter property | setter property => inferInstanceAs (Decidable (property ≠ ""))
  | constructor | observable | override => isTrue trivial

/-- What one fact appends to a tuple. -/
def serialized (fact : PatternFact) : List String := fact.appendSerialized []

theorem appendSerialized_eq (fact : PatternFact) (output : List String) :
    fact.appendSerialized output = output ++ fact.serialized := by
  cases fact <;> simp [serialized, appendSerialized]

theorem parseLoop_serialized (fact : PatternFact) (rest : List String) :
    parseLoop (fact.serialized ++ rest) =
      if fact.Named then (parseLoop rest).map (fact :: ·) else none := by
  cases fact with
  | constructor | observable | override =>
      simp [serialized, appendSerialized, kind, parseLoop, Named]
  | getter property | setter property =>
      by_cases h : property = "" <;>
        simp [serialized, appendSerialized, kind, parseLoop, Named, h]

end PatternFact

theorem serializeFacts_eq_flatMap (facts : List PatternFact) :
    serializeFacts facts = facts.flatMap PatternFact.serialized := by
  have hfold : ∀ output, facts.foldl (fun out fact => fact.appendSerialized out) output =
      output ++ facts.flatMap PatternFact.serialized := by
    induction facts with
    | nil => simp
    | cons fact facts ih =>
        intro output
        rw [List.foldl_cons, ih, PatternFact.appendSerialized_eq, List.flatMap_cons,
          List.append_assoc]
  rw [serializeFacts, hfold, List.nil_append]

theorem parseLoop_serializeFacts (facts : List PatternFact) :
    PatternFact.parseLoop (serializeFacts facts) =
      if ∀ fact ∈ facts, fact.Named then some facts else none := by
  rw [serializeFacts_eq_flatMap]
  induction facts with
  | nil => simp [PatternFact.parseLoop]
  | cons fact facts ih =>
      rw [List.flatMap_cons, PatternFact.parseLoop_serialized, ih]
      by_cases hfact : fact.Named <;> by_cases hrest : ∀ f ∈ facts, f.Named <;>
        simp_all

/-- `parse_all` inverts the serialized facts exactly on non-empty named payloads. -/
theorem parseAll_serializeFacts (facts : List PatternFact) :
    PatternFact.parseAll (serializeFacts facts) =
      if facts ≠ [] ∧ ∀ fact ∈ facts, fact.Named then some facts else none := by
  rw [PatternFact.parseAll, parseLoop_serializeFacts]
  by_cases hn : ∀ fact ∈ facts, fact.Named
  · by_cases hne : facts = [] <;> simp [hne, if_pos hn]
  · simp [hn]

theorem serializeFacts_eq_nil (facts : List PatternFact) :
    serializeFacts facts = [] ↔ facts = [] := by
  rw [serializeFacts_eq_flatMap]
  cases facts with
  | nil => simp
  | cons fact facts =>
      cases fact <;> simp [PatternFact.serialized, PatternFact.appendSerialized]

/-- The payload condition of the tuple decoder, operation by operation. -/
def CoreOp.Transportable : CoreOp → Prop
  | .methodModifiers _ modifiers | .classModifiers _ modifiers
  | .interfaceModifiers _ modifiers => modifiers ≠ []
  | .controlSummary _ summaries => summaries ≠ []
  | .patternFacts _ facts => facts ≠ [] ∧ ∀ fact ∈ facts, fact.Named
  | .flags _ values | .classFlags _ values | .injects _ values | .pattern _ values => values ≠ []
  | .body _ _ start stop => start.isSome = stop.isSome
  | _ => True

instance : DecidablePred CoreOp.Transportable
  | .methodModifiers _ modifiers | .classModifiers _ modifiers
  | .interfaceModifiers _ modifiers => inferInstanceAs (Decidable (modifiers ≠ []))
  | .controlSummary _ summaries => inferInstanceAs (Decidable (summaries ≠ []))
  | .patternFacts _ facts =>
      inferInstanceAs (Decidable (facts ≠ [] ∧ ∀ fact ∈ facts, fact.Named))
  | .flags _ values | .classFlags _ values | .injects _ values | .pattern _ values =>
      inferInstanceAs (Decidable (values ≠ []))
  | .body _ _ start stop => inferInstanceAs (Decidable (start.isSome = stop.isSome))
  | .defClass .. | .defMethod .. | .defField .. | .defInterface .. | .defInterfaceMethod ..
  | .defInterfaceField .. | .param .. | .ret .. | .fieldType .. | .classExtends ..
  | .baseTypeRef .. | .interfaceExtends .. | .implements .. | .importModule .. | .typeAlias ..
  | .dataFlow .. | .controlFlow .. | .sideEffect .. | .executionContext .. | .call .. =>
      isTrue trivial

theorem mapM_fromSerialized {α : Type} {read : String → Option α} {write : α → String}
    (h : ∀ a, read (write a) = some a) (values : List α) :
    (values.map write).mapM read = some values := by
  induction values with
  | nil => rfl
  | cons value values ih => simp [List.mapM_cons, h, ih]

theorem variadicArm_cons {α : Type} (build : String → α → CoreOp)
    (read : List String → Option α) (target : String) (values : List String) :
    variadicArm build read (target :: values) =
      if values = [] then none else (read values).map (build target) := by
  cases values <;> simp [variadicArm]

theorem tupleToOp_cons_iff {head : String} {opcode : DeltaOpcode} {operands : List String}
    {op : CoreOp} {p : Prop} (hopcode : DeltaOpcode.fromWire head = some opcode)
    (hoperands : operandsToOp opcode operands = some op ↔ p) :
    tupleToOp (head :: operands) = some op ↔ p := by
  simpa only [tupleToOp, hopcode] using hoperands

theorem tupleToOp_opToTuple (op : CoreOp) :
    tupleToOp (opToTuple op) = some op ↔ op.Transportable := by
  cases op with
  | methodModifiers _ values | classModifiers _ values | interfaceModifiers _ values =>
      refine tupleToOp_cons_iff rfl ?_
      cases values <;>
        simp [operandsToOp, variadicArm, CoreOp.Transportable,
          mapM_fromSerialized DeclarationModifier.fromSerialized_asStr]
  | controlSummary _ values =>
      refine tupleToOp_cons_iff rfl ?_
      cases values <;>
        simp [operandsToOp, variadicArm, CoreOp.Transportable,
          mapM_fromSerialized ControlSummary.fromSerialized_asStr]
  | patternFacts _ facts =>
      refine tupleToOp_cons_iff rfl ?_
      simp [operandsToOp, variadicArm_cons, CoreOp.Transportable, parseAll_serializeFacts,
        serializeFacts_eq_nil]
  | flags _ values | classFlags _ values | injects _ values | pattern _ values =>
      refine tupleToOp_cons_iff rfl ?_
      cases values <;> simp [operandsToOp, variadicArm, CoreOp.Transportable]
  | body _ _ start stop =>
      cases start <;> cases stop <;>
        refine tupleToOp_cons_iff rfl ?_ <;> simp [operandsToOp, CoreOp.Transportable]
  | call _ _ _ hasSpread =>
      cases hasSpread <;>
        refine tupleToOp_cons_iff rfl ?_ <;> simp [operandsToOp, CoreOp.Transportable]
  | defClass | defMethod | defField | defInterface | defInterfaceMethod | defInterfaceField
  | param | ret | fieldType | classExtends | baseTypeRef | interfaceExtends | implements
  | importModule | typeAlias | dataFlow | controlFlow => exact iff_of_true rfl trivial
  | sideEffect | executionContext =>
      exact tupleToOp_cons_iff rfl (by simp [operandsToOp, CoreOp.Transportable])

end CleanCtx
