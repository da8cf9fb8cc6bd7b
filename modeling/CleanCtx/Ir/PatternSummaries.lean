import CleanCtx.Ir.PatternIdentity

/-!
What the consumptive recognizer may leave out (`ir/patterns.rs`, F2). A match re-emits the
declaration with its signature and the authoritative annotations, and takes the other
annotations next to them with it, whatever they state. Nothing is lost exactly where these
state the kind of the pattern and no other.
-/
namespace CleanCtx
namespace Patterns

/-- Every operation but those that a classification summarizes is emitted again, in its place, and a
stream that the identity validator accepts stays accepted. -/
theorem recognize_keepsIdentity (alphabet : Alphabet) (ir : CompiledIR) :
    (recognize alphabet ir.instructions).filter (fun op => !isSummary op) =
        ir.instructions.filter (fun op => !isSummary op) ∧
      ((∃ index, validateIdentityGraph ir = .ok index) →
        ∃ index, validateIdentityGraph
          { ir with instructions := recognize alphabet ir.instructions } = .ok index) := by
  obtain ⟨patterns, removed, haccounted, -⟩ := recognize_accounted alphabet ir.instructions
  refine ⟨haccounted.kept, fun haccepted => validateIdentityGraph_iff.mpr ?_⟩
  exact recognize_valid alphabet (validateIdentityGraph_iff.mp haccepted)

theorem recognize_keepsIdentity_constructor :
    ∃ index, validateIdentityGraph
      { constructorUnit with instructions := recognize .ofAscii constructorUnit.instructions } =
        .ok index :=
  (recognize_keepsIdentity .ofAscii constructorUnit).2 ⟨_, rfl⟩

/-- The pattern's name is the kind of the fact, and an accessor has the same property. -/
def CarriesFact (p : PatternOp) (fact : PatternFact) : Prop :=
  p.name = fact.kind ∧ ∀ property, fact = .getter property ∨ fact = .setter property →
    property ∈ p.args.drop 2

/-- The pattern has every value of the operation. -/
def Carries (p : PatternOp) : CoreOp → Prop
  | .flags _ values => ∀ value ∈ values, p.name = value
  | .patternFacts _ facts => ∀ fact ∈ facts, CarriesFact p fact
  | .injects _ deps => p.name = "CTOR" ∧ ∀ dep ∈ deps, dep ∈ p.args
  | _ => False

section Matches

variable {alphabet : Alphabet} {matched : PatternMatch} {span : List CoreOp}

namespace Region

variable (region : Region) {op : CoreOp}

end Region

end Matches

end Patterns
end CleanCtx
