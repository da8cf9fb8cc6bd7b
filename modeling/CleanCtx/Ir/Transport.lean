import CleanCtx.Ir.BinaryRoundTrip
import CleanCtx.Ir.IdentityCollector
import CleanCtx.Ir.StringTableRoundTrip

/-!
Which of the streams the identity validator accepts the three transports carry.
The validator's payload contracts imply the decoders' except in two families:
an empty injection list, and an accessor fact without a property.
-/
namespace CleanCtx

/-- The payload values that the decoders require beyond the identity contracts. -/
def CoreOp.PayloadNamed : CoreOp → Prop
  | .injects _ deps => deps ≠ []
  | .patternFacts _ facts => ∀ fact ∈ facts, fact.Named
  | _ => True

instance : DecidablePred CoreOp.PayloadNamed
  | .injects _ deps => inferInstanceAs (Decidable (deps ≠ []))
  | .patternFacts _ facts => inferInstanceAs (Decidable (∀ fact ∈ facts, fact.Named))
  | .defClass .. | .defMethod .. | .defField .. | .defInterface .. | .defInterfaceMethod ..
  | .defInterfaceField .. | .param .. | .ret .. | .fieldType .. | .methodModifiers ..
  | .classModifiers .. | .interfaceModifiers .. | .controlSummary .. | .flags ..
  | .classFlags .. | .classExtends .. | .baseTypeRef .. | .interfaceExtends .. | .implements ..
  | .importModule .. | .typeAlias .. | .pattern .. | .body .. | .dataFlow .. | .controlFlow ..
  | .sideEffect .. | .executionContext .. | .call .. =>
      isTrue trivial

/-- The compiled IR comes back from each transport as it was sent. -/
structure RoundTrips (ir : CompiledIR) : Prop where
  named : wireToIr (irToWire ir) = .ok ir
  stringTable : ∃ wire, StringTable.irToWire ir = .ok wire ∧ StringTable.wireToIr wire = some ir
  binary : ∃ bytes, Binary.encode ir = .ok bytes ∧ Binary.decode bytes = .ok ir

theorem validArity_nil (name : String) : validArity name [] = false := by
  unfold validArity
  split <;> simp

theorem SpanValid.isSome_eq {start stop : Option UInt64} (h : SpanValid start stop) :
    start.isSome = stop.isSome := by
  cases start <;> cases stop <;> simp_all [SpanValid]

/-- On accepted payloads the two missing checks are all that the decoders add. -/
theorem CoreOp.transportable_iff {op : CoreOp} (h : op.PayloadValid) :
    op.Transportable ↔ op.PayloadNamed := by
  cases op with
  | methodModifiers _ _ | classModifiers _ _ | interfaceModifiers _ _ | controlSummary _ _ =>
      exact iff_of_true h trivial
  | flags _ _ | classFlags _ _ => exact iff_of_true h.1 trivial
  | patternFacts _ facts => exact and_iff_right h
  | injects _ deps => exact Iff.rfl
  | pattern name args =>
      refine iff_of_true (fun hnil => ?_) trivial
      have harity := h.2
      rw [hnil, validArity_nil] at harity
      cases harity
  | body _ _ start stop => exact iff_of_true h.isSome_eq trivial
  | _ => exact iff_of_true trivial trivial

theorem Binary.length_fromInstructions_le (ir : CompiledIR) :
    (StringTable.fromInstructions ir.instructions).strings.length ≤
      (encodeTable ir).strings.length := by
  rw [encodeTable, StringTable.intern_strings]
  split <;> simp

/-- A valid stream survives the three transports exactly when its injection lists are
non-empty and its accessor facts name their properties. -/
theorem roundTrips_iff_payloadNamed (ir : CompiledIR)
    (hvalid : ∃ index, validateIdentityGraph ir = .ok index) (hfits : Binary.Addressable ir) :
    RoundTrips ir ↔ ∀ op ∈ ir.instructions, op.PayloadNamed := by
  have hpayload : ∀ op ∈ ir.instructions, op.PayloadValid := fun op hop =>
    ((validateIdentityGraph_iff.mp hvalid).resolved op hop).payload
  have htransport : (∀ op ∈ ir.instructions, op.Transportable) ↔
      ∀ op ∈ ir.instructions, op.PayloadNamed :=
    forall₂_congr fun op hop => CoreOp.transportable_iff (hpayload op hop)
  rw [← htransport]
  constructor
  · intro h
    exact (wireToIr_irToWire ir).mp h.named
  · intro h
    refine ⟨(wireToIr_irToWire ir).mpr h, StringTable.wireToIr_irToWire ir ?_ h,
      _, Binary.encode_ok ir,
      Binary.decode_streamBytes ir (fun op hop => .of_transportable (h op hop)) hfits⟩
    exact (Binary.length_fromInstructions_le ir).trans_lt hfits.length_strings

theorem roundTrips_iff_payloadNamed_injected :
    RoundTrips ⟨"α1", [.defClass "C1" "A", .injects "C1" ["B"]], 1⟩ ↔
      ∀ op ∈ [CoreOp.defClass "C1" "A", .injects "C1" ["B"]], op.PayloadNamed :=
  roundTrips_iff_payloadNamed ⟨"α1", [.defClass "C1" "A", .injects "C1" ["B"]], 1⟩ ⟨_, rfl⟩ (by
    intro bytes h
    rw [Binary.encode_ok] at h
    cases h
    decide +kernel)

/-- A class without dependencies may carry an empty injection list, which the decoders of tuples
do not read. -/
theorem not_roundTrips_of_accepted :
    (∃ index, validateIdentityGraph ⟨"α1", [.defClass "C1" "A", .injects "C1" []], 1⟩ =
        .ok index) ∧
      ¬RoundTrips ⟨"α1", [.defClass "C1" "A", .injects "C1" []], 1⟩ := by
  refine ⟨⟨_, rfl⟩, fun h => ?_⟩
  have htransport := (wireToIr_irToWire _).mp h.named
  exact htransport (.injects "C1" []) (by simp) rfl

end CleanCtx
