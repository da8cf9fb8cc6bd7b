import CleanCtx.Library.Decimal
import CleanCtx.Library.Json
import CleanCtx.Ir.Opcodes

/-!
Positional tuples and the named JSON wire (`ir/wire.rs`). `opToTuple` and
`tupleToOp` are two separate matches in the source; `Transportable` is the
payload condition under which the second inverts the first.
-/
namespace CleanCtx

/-- Errors during wire format decoding. -/
inductive DecodeError
  | missingField (name : String)
  | invalidFieldType (name : String)
  | unknownOpcode (op : String)
  | malformedTuple (msg : String)
  | invalidInput (msg : String)
  deriving DecidableEq

/-- `PatternFact::append_serialized` over a list of facts, from an empty output. -/
def serializeFacts (facts : List PatternFact) : List String :=
  facts.foldl (fun output fact => fact.appendSerialized output) []

/-- Serialize a single operation to its positional tuple. -/
def opToTuple : CoreOp → Tuple
  | .defClass id name => ["DEF_C", id, name]
  | .defMethod cid mid name => ["DEF_M", cid, mid, name]
  | .defField cid fid name => ["DEF_F", cid, fid, name]
  | .defInterface id name => ["DEF_I", id, name]
  | .defInterfaceMethod iid mid name => ["DEF_IM", iid, mid, name]
  | .defInterfaceField iid fid name => ["DEF_IF", iid, fid, name]
  | .param mid pid ty name => ["SIG", mid, pid, ty, name]
  | .ret mid ty => ["RET", mid, ty]
  | .fieldType fid ty => ["FIELD_T", fid, ty]
  | .methodModifiers mid modifiers => "MOD_M" :: mid :: modifiers.map (·.asStr)
  | .classModifiers cid modifiers => "MOD_C" :: cid :: modifiers.map (·.asStr)
  | .interfaceModifiers iid modifiers => "MOD_I" :: iid :: modifiers.map (·.asStr)
  | .controlSummary mid summaries => "CTRL_SUM" :: mid :: summaries.map (·.asStr)
  | .patternFacts mid facts => "PAT_FACT" :: mid :: serializeFacts facts
  | .flags tid flags => "FLAGS" :: tid :: flags
  | .classFlags cid flags => "FLAGS_C" :: cid :: flags
  | .classExtends child parent => ["EXT", child, parent]
  | .baseTypeRef child writtenType => ["BASE_REF", child, writtenType]
  | .interfaceExtends child parent => ["EXT_I", child, parent]
  | .implements cid iid => ["IMPL", cid, iid]
  | .injects cid deps => "INJECTS" :: cid :: deps
  | .importModule aliasName moduleName named => ["IMP", aliasName, moduleName, named]
  | .typeAlias aliasName original => ["TYPE", aliasName, original]
  | .pattern name args => "PAT" :: name :: args
  -- A span-less body keeps the three-element shape; a half-present span does too.
  | .body mid text (some s) (some e) => ["BODY", mid, text, Decimal.print s, Decimal.print e]
  | .body mid text _ _ => ["BODY", mid, text]
  | .dataFlow mid direction target => ["DATAFLOW", mid, direction, target]
  | .controlFlow mid kind target => ["CTRL", mid, kind, target]
  | .sideEffect mid effect => ["EFFECT", mid, effect.asStr]
  | .executionContext mid context => ["CTX", mid, context.asStr]
  | .call caller callee argc hasSpread =>
      ["CALL", caller, callee, Decimal.print argc] ++ if hasSpread then ["spread"] else []

/-- The payload arm shared by the variadic opcodes: a target, then at least one value. -/
def variadicArm {α : Type} (build : String → α → CoreOp) (read : List String → Option α) :
    List String → Option CoreOp
  | target :: value :: values => (read (value :: values)).map (build target)
  | _ => none

/-- The operand match of `tuple_to_op`, one arm for each opcode. -/
def operandsToOp : DeltaOpcode → List String → Option CoreOp
  | .defClass, id :: name :: _ => some (.defClass id name)
  | .defMethod, cid :: mid :: name :: _ => some (.defMethod cid mid name)
  | .defField, cid :: fid :: name :: _ => some (.defField cid fid name)
  | .defInterface, id :: name :: _ => some (.defInterface id name)
  | .defInterfaceMethod, iid :: mid :: name :: _ => some (.defInterfaceMethod iid mid name)
  | .defInterfaceField, iid :: fid :: name :: _ => some (.defInterfaceField iid fid name)
  | .param, mid :: pid :: ty :: name :: _ => some (.param mid pid ty name)
  | .ret, mid :: ty :: _ => some (.ret mid ty)
  | .fieldType, fid :: ty :: _ => some (.fieldType fid ty)
  | .methodModifiers, operands =>
      variadicArm .methodModifiers (·.mapM DeclarationModifier.fromSerialized) operands
  | .classModifiers, operands =>
      variadicArm .classModifiers (·.mapM DeclarationModifier.fromSerialized) operands
  | .interfaceModifiers, operands =>
      variadicArm .interfaceModifiers (·.mapM DeclarationModifier.fromSerialized) operands
  | .controlSummary, operands =>
      variadicArm .controlSummary (·.mapM ControlSummary.fromSerialized) operands
  | .patternFacts, operands => variadicArm .patternFacts PatternFact.parseAll operands
  | .flags, operands => variadicArm .flags some operands
  | .classFlags, operands => variadicArm .classFlags some operands
  | .classExtends, child :: parent :: _ => some (.classExtends child parent)
  | .baseTypeRef, child :: writtenType :: _ => some (.baseTypeRef child writtenType)
  | .interfaceExtends, child :: parent :: _ => some (.interfaceExtends child parent)
  | .implements, cid :: iid :: _ => some (.implements cid iid)
  | .injects, operands => variadicArm .injects some operands
  | .importModule, aliasName :: moduleName :: named :: _ =>
      some (.importModule aliasName moduleName named)
  | .typeAlias, aliasName :: original :: _ => some (.typeAlias aliasName original)
  | .pattern, operands => variadicArm .pattern some operands
  | .body, [mid, text] => some (.body mid text none none)
  | .body, [mid, text, start, stop] => do
      let startByte ← Decimal.parse start
      let endByte ← Decimal.parse stop
      some (.body mid text (some startByte) (some endByte))
  | .dataFlow, mid :: direction :: target :: _ => some (.dataFlow mid direction target)
  | .controlFlow, mid :: kind :: target :: _ => some (.controlFlow mid kind target)
  | .sideEffect, mid :: effect :: _ =>
      (SideEffectKind.fromSerialized effect).map (.sideEffect mid)
  | .executionContext, mid :: context :: _ =>
      (ExecutionContextKind.fromSerialized context).map (.executionContext mid)
  | .call, [caller, callee, argc] =>
      (Decimal.parse argc).map fun n => .call caller callee n false
  | .call, [caller, callee, argc, qualifier] =>
      if qualifier = "spread" then
        (Decimal.parse argc).map fun n => .call caller callee n true
      else none
  | _, _ => none

/-- Deserialize a positional tuple back to an operation. -/
def tupleToOp : Tuple → Option CoreOp
  | [] => none
  | head :: operands =>
      match DeltaOpcode.fromWire head with
      | some opcode => operandsToOp opcode operands
      | none => none

/-- Serialize a compiled IR to the named wire format. -/
def irToWire (ir : CompiledIR) : Value :=
  .object [("file", .string ir.fileId), ("v", .ofU64 ir.version),
    ("encoding", .string "named"),
    ("ir", .array (ir.instructions.map fun op => .ofStrings (opToTuple op)))]

/-- One element of the `ir` array of a named wire, at position `i`. -/
def wireTupleToOp (i : Nat) (tupleVal : Value) : Except DecodeError CoreOp := do
  let items ← (tupleVal.asArray).elim
    (.error (.invalidFieldType ("ir[" ++ toString i ++ "]: expected array"))) .ok
  let tuple ← items.mapM fun v => v.asStr.elim
    (.error (.invalidFieldType ("ir[" ++ toString i ++ "]: expected string element"))) .ok
  match tupleToOp tuple with
  | some op => .ok op
  | none =>
      match tuple with
      | [] => .error (.malformedTuple ("ir[" ++ toString i ++ "]: empty tuple"))
      | head :: _ =>
          .error (.unknownOpcode ("ir[" ++ toString i ++ "]: unknown opcode '" ++ head ++ "'"))

/-- The decoding loop of `wire_to_ir`, from position `i` on. -/
def wireTuplesToOps : Nat → List Value → Except DecodeError (List CoreOp)
  | _, [] => .ok []
  | i, tupleVal :: rest => do
      let op ← wireTupleToOp i tupleVal
      let ops ← wireTuplesToOps (i + 1) rest
      .ok (op :: ops)

/-- Deserialize a compiled IR from the named wire format. -/
def wireToIr (value : Value) : Except DecodeError CompiledIR := do
  let fileId ← ((value.get "file").bind (·.asStr)).elim (.error (.missingField "file")) .ok
  let version ← ((value.get "v").bind (·.asU64)).elim (.error (.missingField "v")) .ok
  let irArray ← ((value.get "ir").bind (·.asArray)).elim (.error (.missingField "ir")) .ok
  let instructions ← wireTuplesToOps 0 irArray
  .ok { fileId, instructions, version }

end CleanCtx
