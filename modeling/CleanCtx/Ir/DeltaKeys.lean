import CleanCtx.Ir.Wire

/-!
Delta keys (`ir/delta.rs`, `ir/delta/tuples.rs`, `ir/delta/sequence.rs`). The
coarse primary key serves the legacy deltas; `DeltaIdentity` and the occurrence
ordinal serve the positional protocol.
-/
namespace CleanCtx

/-- Extract the primary key from an operation. -/
def primaryKey : CoreOp → String
  | .defClass id _ => "DEF_C:" ++ id
  | .defMethod cid mid _ => "DEF_M:" ++ cid ++ ":" ++ mid
  | .defField cid fid _ => "DEF_F:" ++ cid ++ ":" ++ fid
  | .defInterface id _ => "DEF_I:" ++ id
  | .defInterfaceMethod iid mid _ => "DEF_IM:" ++ iid ++ ":" ++ mid
  | .defInterfaceField iid fid _ => "DEF_IF:" ++ iid ++ ":" ++ fid
  | .param mid pid _ _ => "SIG:" ++ mid ++ ":" ++ pid
  | .ret mid _ => "RET:" ++ mid
  | .fieldType fid _ => "FIELD_T:" ++ fid
  | .methodModifiers mid _ => "MOD_M:" ++ mid
  | .classModifiers cid _ => "MOD_C:" ++ cid
  | .interfaceModifiers iid _ => "MOD_I:" ++ iid
  | .controlSummary mid _ => "CTRL_SUM:" ++ mid
  | .patternFacts mid _ => "PAT_FACT:" ++ mid
  | .flags tid _ => "FLAGS:" ++ tid
  | .classFlags cid _ => "FLAGS_C:" ++ cid
  | .classExtends child _ => "EXT:" ++ child
  | .baseTypeRef child _ => "BASE_REF:" ++ child
  | .interfaceExtends child _ => "EXT_I:" ++ child
  | .implements cid iid => "IMPL:" ++ cid ++ ":" ++ iid
  | .injects cid _ => "INJECTS:" ++ cid
  | .importModule aliasName _ _ => "IMP:" ++ aliasName
  | .typeAlias aliasName _ => "TYPE:" ++ aliasName
  | .pattern name args => "PAT:" ++ name ++ ":" ++ (args[0]?).getD "?"
  | .body mid .. => "BODY:" ++ mid
  | .dataFlow mid _ _ => "DATAFLOW:" ++ mid
  | .controlFlow mid _ _ => "CTRL:" ++ mid
  | .sideEffect mid _ => "EFFECT:" ++ mid
  | .executionContext mid _ => "CTX:" ++ mid
  | .call caller callee argc hasSpread =>
      if hasSpread then
        "CALL:" ++ caller ++ ":" ++ callee ++ ":" ++ Decimal.print argc ++ ":" ++ "spread"
      else "CALL:" ++ caller ++ ":" ++ callee ++ ":" ++ Decimal.print argc

/-- Extract the key tuple from an operation: opcode and identifying operands. -/
def keyTuple : CoreOp → Tuple
  | .defClass id _ => ["DEF_C", id]
  | .defMethod cid mid _ => ["DEF_M", cid, mid]
  | .defField cid fid _ => ["DEF_F", cid, fid]
  | .defInterface id _ => ["DEF_I", id]
  | .defInterfaceMethod iid mid _ => ["DEF_IM", iid, mid]
  | .defInterfaceField iid fid _ => ["DEF_IF", iid, fid]
  | .param mid pid _ _ => ["SIG", mid, pid]
  | .ret mid _ => ["RET", mid]
  | .fieldType fid _ => ["FIELD_T", fid]
  | .methodModifiers mid _ => ["MOD_M", mid]
  | .classModifiers cid _ => ["MOD_C", cid]
  | .interfaceModifiers iid _ => ["MOD_I", iid]
  | .controlSummary mid _ => ["CTRL_SUM", mid]
  | .patternFacts mid _ => ["PAT_FACT", mid]
  | .flags tid _ => ["FLAGS", tid]
  | .classFlags cid _ => ["FLAGS_C", cid]
  | .classExtends child _ => ["EXT", child]
  | .baseTypeRef child _ => ["BASE_REF", child]
  | .interfaceExtends child _ => ["EXT_I", child]
  | .implements cid iid => ["IMPL", cid, iid]
  | .injects cid _ => ["INJECTS", cid]
  | .importModule aliasName _ _ => ["IMP", aliasName]
  | .typeAlias aliasName _ => ["TYPE", aliasName]
  | .pattern name args => "PAT" :: name :: args.take 1
  | .body mid .. => ["BODY", mid]
  | .dataFlow mid _ _ => ["DATAFLOW", mid]
  | .controlFlow mid _ _ => ["CTRL", mid]
  | .sideEffect mid _ => ["EFFECT", mid]
  | .executionContext mid _ => ["CTX", mid]
  | .call caller callee argc hasSpread =>
      ["CALL", caller, callee, Decimal.print argc] ++ if hasSpread then ["spread"] else []

/-- `tuple.get(i)`, with the empty string for a missing operand. -/
def operand (tuple : Tuple) (i : Nat) : String := (tuple[i]?).getD ""

/-- Extract the primary key from an instruction tuple. -/
def primaryKeyFromTuple (tuple : Tuple) : String :=
  match tuple with
  | [] => ""
  | head :: _ =>
      match DeltaOpcode.fromWire head with
      | some .defMethod | some .defField | some .defInterfaceMethod
      | some .defInterfaceField | some .param | some .implements =>
          head ++ ":" ++ operand tuple 1 ++ ":" ++ operand tuple 2
      | some .pattern =>
          head ++ ":" ++ (tuple[1]?).getD "?" ++ ":" ++ (tuple[2]?).getD "?"
      | some .call =>
          let base := head ++ ":" ++ operand tuple 1 ++ ":" ++ operand tuple 2 ++ ":" ++
            operand tuple 3
          match tuple[4]? with
          | some qualifier => if qualifier = "" then base else base ++ ":" ++ qualifier
          | none => base
      | some _ => head ++ ":" ++ operand tuple 1
      | none => String.intercalate ":" tuple

/-- Extract the key tuple from an instruction tuple. -/
def keyTupleFromTuple (tuple : Tuple) : Tuple :=
  match tuple with
  | [] => []
  | head :: _ =>
      match DeltaOpcode.fromWire head with
      | some .defMethod | some .defField | some .defInterfaceMethod
      | some .defInterfaceField | some .param | some .implements | some .pattern =>
          [head, operand tuple 1, operand tuple 2]
      | some .call =>
          [head, operand tuple 1, operand tuple 2, operand tuple 3] ++
            (tuple[4]?).elim [] fun qualifier => [qualifier]
      | some _ => [head, operand tuple 1]
      | none => tuple

namespace DeltaOpcode

def isRepeatable : DeltaOpcode → Bool
  | defClass | defMethod | defField | defInterface | defInterfaceMethod | defInterfaceField
  | param | ret | fieldType | classExtends | baseTypeRef | importModule | body => false
  | _ => true

/-- The `key_len` of `DeltaIdentity::from_tuple` for a tuple of the given length. -/
def keyLen (length : Nat) : DeltaOpcode → Nat
  | defMethod | defField | defInterfaceMethod | defInterfaceField | param => 3
  | defClass | defInterface | ret | fieldType | classExtends | baseTypeRef
  | interfaceExtends | importModule | body => 2
  | _ => length

end DeltaOpcode

/-- Semantic identity before occurrence disambiguation. -/
structure DeltaIdentity where
  opcode : DeltaOpcode
  key : List String
  deriving DecidableEq

namespace DeltaIdentity

def fromTuple (tuple : Tuple) : Option DeltaIdentity := do
  let opcode ← DeltaOpcode.fromWire (← tuple[0]?)
  let keyLen := opcode.keyLen tuple.length
  if keyLen ≤ tuple.length then some { opcode, key := tuple.take keyLen } else none

def isRepeatable (identity : DeltaIdentity) : Bool := identity.opcode.isRepeatable

end DeltaIdentity

/-- Stable ordinal among preceding operations with the same semantic identity. -/
structure OccurrenceKey where
  identity : DeltaIdentity
  occurrence : Nat
  deriving DecidableEq

def occurrenceKeyAt (instructions : List Tuple) (position : Nat) : Option OccurrenceKey := do
  let identity ← DeltaIdentity.fromTuple (← instructions[position]?)
  let occurrence := ((instructions.take position).filter
    fun tuple => DeltaIdentity.fromTuple tuple = some identity).length
  some { identity, occurrence }

theorem DeltaIdentity.fromTuple_cons_isSome {head : String} {opcode : DeltaOpcode}
    (hopcode : DeltaOpcode.fromWire head = some opcode) {operands : List String}
    (hlen : opcode.keyLen (operands.length + 1) ≤ operands.length + 1) :
    (DeltaIdentity.fromTuple (head :: operands)).isSome := by
  simp [DeltaIdentity.fromTuple, hopcode, hlen]

theorem DeltaIdentity.fromTuple_opToTuple_isSome (op : CoreOp) :
    (DeltaIdentity.fromTuple (opToTuple op)).isSome := by
  cases op with
  | methodModifiers | classModifiers | interfaceModifiers | controlSummary | patternFacts
  | flags | classFlags | injects | pattern =>
      exact DeltaIdentity.fromTuple_cons_isSome rfl le_rfl
  | body _ _ start stop => cases start <;> cases stop <;> rfl
  | call _ _ _ hasSpread => cases hasSpread <;> rfl
  | _ => rfl

theorem primaryKeyFromTuple_opToTuple (op : CoreOp) :
    primaryKeyFromTuple (opToTuple op) = primaryKey op := by
  cases op with
  | pattern _ args => cases args <;> rfl
  | body _ _ start stop => cases start <;> cases stop <;> rfl
  | call _ _ _ hasSpread => cases hasSpread <;> rfl
  | _ => rfl

theorem primaryKeyFromTuple_keyTuple (op : CoreOp) :
    primaryKeyFromTuple (keyTuple op) = primaryKey op := by
  cases op with
  | pattern _ args => cases args <;> rfl
  | call _ _ _ hasSpread => cases hasSpread <;> rfl
  | _ => rfl

end CleanCtx
