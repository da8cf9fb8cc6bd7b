import CleanCtx.Ir.StringTable
import CleanCtx.Ir.WireRoundTrip

/-!
The two JSON wires decode to the compiled IR they encode when every operation is
transportable. The named wire does so only then.
-/
namespace CleanCtx

theorem mapM_asStr_ofStrings (e : DecodeError) (ss : List String) :
    (ss.map Value.string).mapM (fun v => v.asStr.elim (Except.error e) Except.ok) = .ok ss := by
  induction ss with
  | nil => rfl
  | cons s ss ih =>
      rw [List.map_cons, List.mapM_cons, ih]
      rfl

theorem wireTupleToOp_ofStrings (i : Nat) (tuple : Tuple) (op : CoreOp) :
    wireTupleToOp i (.ofStrings tuple) = .ok op ↔ tupleToOp tuple = some op := by
  unfold wireTupleToOp
  rw [Value.asArray_ofStrings, Option.elim_some]
  simp only [bind, Except.bind, mapM_asStr_ofStrings]
  cases tupleToOp tuple with
  | none => cases tuple <;> simp
  | some found => simp

theorem wireTuplesToOps_opToTuple (i : Nat) (ops : List CoreOp) :
    wireTuplesToOps i (ops.map fun op => .ofStrings (opToTuple op)) = .ok ops ↔
      ∀ op ∈ ops, op.Transportable := by
  induction ops generalizing i with
  | nil => simp [wireTuplesToOps]
  | cons op ops ih =>
      rw [List.map_cons, wireTuplesToOps, List.forall_mem_cons, ← ih (i + 1),
        ← tupleToOp_opToTuple op, ← wireTupleToOp_ofStrings i]
      cases wireTupleToOp i (.ofStrings (opToTuple op)) with
      | error e => simp [bind, Except.bind]
      | ok found =>
          cases wireTuplesToOps (i + 1) (ops.map fun op => .ofStrings (opToTuple op)) <;>
            simp [bind, Except.bind]

theorem wireToIr_irToWire (ir : CompiledIR) :
    wireToIr (irToWire ir) = .ok ir ↔ ∀ op ∈ ir.instructions, op.Transportable := by
  rw [← wireTuplesToOps_opToTuple 0]
  have hread : wireToIr (irToWire ir) =
      (wireTuplesToOps 0 (ir.instructions.map fun op => .ofStrings (opToTuple op))).map
        fun instructions => { fileId := ir.fileId, instructions, version := ir.version } := by
    simp only [wireToIr, irToWire, Value.get_object]
    rfl
  rw [hread]
  obtain ⟨fileId, instructions, version⟩ := ir
  cases wireTuplesToOps 0 (instructions.map fun op => .ofStrings (opToTuple op)) <;>
    simp [Except.map]

namespace StringTable

/-- The instruction arrays of the wire decode to the operations they encode. -/
theorem mapM_wireTupleToOp {table table' : StringTable} (hsame : table'.strings = table.strings)
    (hlength : table.strings.length < 2 ^ 64) {ops : List CoreOp}
    (hmem : ∀ op ∈ ops, ∀ s ∈ opToTuple op, s ∈ table.strings)
    (htransport : ∀ op ∈ ops, op.Transportable) :
    ∃ encoded, (ops.mapM fun op => encodeOp op table) = .ok encoded ∧
      (encoded.map indicesToJson).mapM (wireTupleToOp table') = some ops := by
  induction ops with
  | nil => exact ⟨[], rfl, rfl⟩
  | cons op ops ih =>
      obtain ⟨indices, hrun, hlt, hdecode⟩ :=
        decodeOp_encodeOp (hmem op List.mem_cons_self) hsame
      obtain ⟨encoded, hrest, hmap⟩ := ih (fun o ho => hmem o (List.mem_cons_of_mem _ ho))
        (fun o ho => htransport o (List.mem_cons_of_mem _ ho))
      have hop : wireTupleToOp table' (indicesToJson indices) = some op := by
        rw [wireTupleToOp, indicesToJson, Value.asArray_array]
        simp only [Option.bind_eq_bind, Option.bind_some,
          mapM_asU64 fun i hi => (hlt i hi).trans hlength, hdecode,
          (tupleToOp_opToTuple op).mpr (htransport op List.mem_cons_self)]
      refine ⟨indices :: encoded, ?_, ?_⟩
      · rw [List.mapM_cons, hrun, Rust.ok_bind, hrest]
        rfl
      · rw [List.map_cons, List.mapM_cons, hop, hmap]
        rfl

theorem wireToIr_irToWire (ir : CompiledIR)
    (hlength : (fromInstructions ir.instructions).strings.length < 2 ^ 64)
    (htransport : ∀ op ∈ ir.instructions, op.Transportable) :
    ∃ wire, irToWire ir = .ok wire ∧ wireToIr wire = some ir := by
  obtain ⟨table', hjson, hsame⟩ := fromJson_toJson (fromInstructions ir.instructions)
  obtain ⟨encoded, hrun, hmap⟩ := mapM_wireTupleToOp hsame hlength
    (fun _ hop _ hs => mem_fromInstructions hop hs) htransport
  have hwire : irToWire ir = .ok (.object [("file", .string ir.fileId),
      ("v", .ofU64 ir.version), ("encoding", .string "string_table"),
      ("t", (fromInstructions ir.instructions).toJson),
      ("ir", .array (encoded.map indicesToJson))]) := by
    rw [irToWire, hrun]
    rfl
  exact ⟨_, hwire, by simp [wireToIr, List.lookup_cons, hjson, -List.mapM_map, hmap]⟩

end StringTable
end CleanCtx
