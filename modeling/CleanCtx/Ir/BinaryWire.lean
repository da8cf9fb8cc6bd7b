import CleanCtx.Ir.StringTable
import CleanCtx.Ir.Varint
import CleanCtx.Library.Utf8

/-!
The binary wire (`ir/binary_wire.rs`, `ir/binary_wire/decode.rs`). A position is
a `usize`, so on a 64-bit target every `usize::try_from` of a decoded word
succeeds and only the end of a string's byte range can overflow.
-/
namespace CleanCtx
namespace Binary

def magic : List UInt8 := [0xCC, 0x02]
def schemaVersion : UInt8 := 0x04

/-! Opcode index assignment. -/
@[match_pattern] abbrev opDefC : UInt8 := 0
@[match_pattern] abbrev opDefM : UInt8 := 1
@[match_pattern] abbrev opDefF : UInt8 := 2
@[match_pattern] abbrev opDefI : UInt8 := 3
@[match_pattern] abbrev opSig : UInt8 := 4
@[match_pattern] abbrev opRet : UInt8 := 5
@[match_pattern] abbrev opFieldT : UInt8 := 6
@[match_pattern] abbrev opFlags : UInt8 := 7
@[match_pattern] abbrev opFlagsC : UInt8 := 8
@[match_pattern] abbrev opExt : UInt8 := 9
@[match_pattern] abbrev opImpl : UInt8 := 10
@[match_pattern] abbrev opInjects : UInt8 := 11
@[match_pattern] abbrev opImp : UInt8 := 12
@[match_pattern] abbrev opType : UInt8 := 13
@[match_pattern] abbrev opPat : UInt8 := 14
@[match_pattern] abbrev opDataflow : UInt8 := 15
@[match_pattern] abbrev opCtrl : UInt8 := 16
@[match_pattern] abbrev opEffect : UInt8 := 17
@[match_pattern] abbrev opCtx : UInt8 := 18
@[match_pattern] abbrev opBody : UInt8 := 19
@[match_pattern] abbrev opCall : UInt8 := 20
@[match_pattern] abbrev opCallSpread : UInt8 := 21
@[match_pattern] abbrev opModM : UInt8 := 22
@[match_pattern] abbrev opModC : UInt8 := 23
@[match_pattern] abbrev opCtrlSum : UInt8 := 24
@[match_pattern] abbrev opPatFact : UInt8 := 25
@[match_pattern] abbrev opDefIm : UInt8 := 26
@[match_pattern] abbrev opDefIf : UInt8 := 27
@[match_pattern] abbrev opModI : UInt8 := 28
@[match_pattern] abbrev opExtI : UInt8 := 29
@[match_pattern] abbrev opBaseRef : UInt8 := 30

def opMax : UInt8 := opBaseRef

/-- Opcodes with a variable number of operands. -/
def isVariadic : UInt8 → Bool
  | opFlags | opFlagsC | opInjects | opPat | opModM | opModC | opModI | opCtrlSum
  | opPatFact => true
  | _ => false

def opToIndex : CoreOp → UInt8
  | .defClass .. => opDefC
  | .defMethod .. => opDefM
  | .defField .. => opDefF
  | .defInterface .. => opDefI
  | .defInterfaceMethod .. => opDefIm
  | .defInterfaceField .. => opDefIf
  | .param .. => opSig
  | .ret .. => opRet
  | .fieldType .. => opFieldT
  | .methodModifiers .. => opModM
  | .classModifiers .. => opModC
  | .interfaceModifiers .. => opModI
  | .controlSummary .. => opCtrlSum
  | .patternFacts .. => opPatFact
  | .flags .. => opFlags
  | .classFlags .. => opFlagsC
  | .classExtends .. => opExt
  | .baseTypeRef .. => opBaseRef
  | .interfaceExtends .. => opExtI
  | .implements .. => opImpl
  | .injects .. => opInjects
  | .importModule .. => opImp
  | .typeAlias .. => opType
  | .pattern .. => opPat
  | .body .. => opBody
  | .dataFlow .. => opDataflow
  | .controlFlow .. => opCtrl
  | .sideEffect .. => opEffect
  | .executionContext .. => opCtx
  | .call _ _ _ false => opCall
  | .call _ _ _ true => opCallSpread

def writeString (s : String) : List UInt8 :=
  writeVarint (UInt64.ofNat (utf8 s).length) ++ utf8 s

def encodeOperand (strToIdx : HashMap String Nat) (s : String) : Rust (List UInt8) := do
  let idx ← expect "canonical binary operand missing from string table" (strToIdx.lookup s)
  pure (writeVarint (UInt64.ofNat idx))

def encodeOperands (strToIdx : HashMap String Nat) : List String → Rust (List UInt8)
  | [] => pure []
  | s :: ss => do
      let bytes ← encodeOperand strToIdx s
      let rest ← encodeOperands strToIdx ss
      pure (bytes ++ rest)

/-- Variadic operands carry their count, the target included. -/
def encodeVariadic (strToIdx : HashMap String Nat) (operands : List String) :
    Rust (List UInt8) := do
  let bytes ← encodeOperands strToIdx operands
  pure (writeVarint (UInt64.ofNat operands.length) ++ bytes)

/-- The operand bytes of one operation. -/
def encodeFields (strToIdx : HashMap String Nat) : CoreOp → Rust (List UInt8)
  | .defClass cid name => encodeOperands strToIdx [cid, name]
  | .defMethod cid mid name => encodeOperands strToIdx [cid, mid, name]
  | .defField cid fid name => encodeOperands strToIdx [cid, fid, name]
  | .defInterface iid name => encodeOperands strToIdx [iid, name]
  | .defInterfaceMethod iid mid name => encodeOperands strToIdx [iid, mid, name]
  | .defInterfaceField iid fid name => encodeOperands strToIdx [iid, fid, name]
  | .param mid pid ty name => encodeOperands strToIdx [mid, pid, ty, name]
  | .ret mid ty => encodeOperands strToIdx [mid, ty]
  | .fieldType fid ty => encodeOperands strToIdx [fid, ty]
  | .methodModifiers mid modifiers =>
      encodeVariadic strToIdx (mid :: modifiers.map (·.asStr))
  | .classModifiers cid modifiers =>
      encodeVariadic strToIdx (cid :: modifiers.map (·.asStr))
  | .interfaceModifiers iid modifiers =>
      encodeVariadic strToIdx (iid :: modifiers.map (·.asStr))
  | .controlSummary mid summaries =>
      encodeVariadic strToIdx (mid :: summaries.map (·.asStr))
  | .patternFacts mid facts => encodeVariadic strToIdx (mid :: serializeFacts facts)
  | .flags tid flags => encodeVariadic strToIdx (tid :: flags)
  | .classFlags cid flags => encodeVariadic strToIdx (cid :: flags)
  | .classExtends child parent => encodeOperands strToIdx [child, parent]
  | .baseTypeRef child writtenType => encodeOperands strToIdx [child, writtenType]
  | .interfaceExtends child parent => encodeOperands strToIdx [child, parent]
  | .implements cid iid => encodeOperands strToIdx [cid, iid]
  | .injects cid deps => encodeVariadic strToIdx (cid :: deps)
  | .importModule aliasName moduleName named =>
      encodeOperands strToIdx [aliasName, moduleName, named]
  | .typeAlias aliasName original => encodeOperands strToIdx [aliasName, original]
  | .pattern name args => encodeVariadic strToIdx (name :: args)
  | .body mid text start stop => do
      let bytes ← encodeOperands strToIdx [mid, text]
      match start, stop with
      | some s, some e => pure (bytes ++ (writeVarint 1 ++ (writeVarint s ++ writeVarint e)))
      | _, _ => pure (bytes ++ writeVarint 0)
  | .dataFlow mid direction target => encodeOperands strToIdx [mid, direction, target]
  | .controlFlow mid kind target => encodeOperands strToIdx [mid, kind, target]
  | .sideEffect mid effect => encodeOperands strToIdx [mid, effect.asStr]
  | .executionContext mid context => encodeOperands strToIdx [mid, context.asStr]
  | .call caller callee argc _ => do
      let bytes ← encodeOperands strToIdx [caller, callee]
      pure (bytes ++ writeVarint argc)

def encodeInstructions (strToIdx : HashMap String Nat) : List CoreOp → Rust (List UInt8)
  | [] => pure []
  | op :: ops => do
      let fields ← encodeFields strToIdx op
      let rest ← encodeInstructions strToIdx ops
      pure ((opToIndex op :: fields) ++ rest)

/-- The string table of `encode`: all tuple strings, then the file identity. -/
def encodeTable (ir : CompiledIR) : StringTable :=
  ((StringTable.fromInstructions ir.instructions).intern ir.fileId).2

/-- Encode a compiled IR into binary wire bytes. -/
def encode (ir : CompiledIR) : Rust (List UInt8) := do
  let strings := (encodeTable ir).strings
  let header := magic ++ [schemaVersion] ++ writeVarint ir.version
  let tableBytes := writeVarint (UInt64.ofNat strings.length) ++ strings.flatMap writeString
  let strToIdx := indexFrom id 0 strings ∅
  let fileId ← encodeOperand strToIdx ir.fileId
  let instructions ← encodeInstructions strToIdx ir.instructions
  pure (header ++ (tableBytes ++ (fileId ++
    (writeVarint (UInt64.ofNat ir.instructions.length) ++ instructions))))

/-- Errors of binary decoding. An invalid string keeps the offending bytes. -/
inductive BinaryDecodeError
  | invalidMagic
  | unsupportedVersion (v : UInt8)
  | truncatedData (msg : String)
  | unknownOpcode (idx : UInt8)
  | invalidStringIndex (idx : UInt64)
  | invalidUtf8 (bytes : List UInt8)
  | invalidDeclarationModifier (value : String)
  | invalidControlSummary (value : String)
  | invalidPatternFact
  | invalidSideEffect (value : String)
  | invalidExecutionContext (value : String)
  | invalidBodySpanFlag (value : UInt64)
  | integerOverflow (field : String)
  | trailingData (bytes : Nat)
  deriving DecidableEq

abbrev Decode := Reader BinaryDecodeError

/-- Largest `usize`. -/
def usizeMax : Nat := 2 ^ 64 - 1

def readWord (truncated : String) : Decode UInt64 := do
  let cursor ← get
  match readVarint cursor.rest with
  | none => Reader.fail (.truncatedData truncated)
  | some (value, consumed) => do
      set { pos := cursor.pos + consumed, rest := cursor.rest.drop consumed : Cursor }
      pure value

/-- `data.get(pos..end)` for `end = pos.checked_add(len)`. -/
def readBytes (len : Nat) (truncated : String) : Decode (List UInt8) := do
  let cursor ← get
  if cursor.pos + len > usizeMax then Reader.fail (.integerOverflow "string byte range")
  else if cursor.rest.length < len then Reader.fail (.truncatedData truncated)
  else do
    set { pos := cursor.pos + len, rest := cursor.rest.drop len : Cursor }
    pure (cursor.rest.take len)

/-- The string table entry `i`. -/
def readString (i : Nat) : Decode String := do
  let cursor ← get
  if cursor.rest = [] then Reader.fail (.truncatedData ("string table entry " ++ toString i))
  else do
    let len ← readWord ("string length for entry " ++ toString i)
    let bytes ← readBytes len.toNat ("string data for entry " ++ toString i)
    match String.fromUTF8? ⟨bytes.toArray⟩ with
    | some value => pure value
    | none => Reader.fail (.invalidUtf8 bytes)

def readOperand (strings : List String) : Decode String := do
  let idx ← readWord "operand index"
  match strings[idx.toNat]? with
  | some s => pure s
  | none => Reader.fail (.invalidStringIndex idx)

/-- Read the values of a typed payload through its vocabulary. -/
def readVocabulary {α : Type} (fromSerialized : String → Option α)
    (invalid : String → BinaryDecodeError) : List String → Decode (List α)
  | [] => pure []
  | value :: values =>
      match fromSerialized value with
      | none => Reader.fail (invalid value)
      | some a => do
          let rest ← readVocabulary fromSerialized invalid values
          pure (a :: rest)

/-- The operands of a variadic opcode that needs a target only. -/
def targetAndValues (truncated : String) (build : String → List String → CoreOp) :
    List String → Decode CoreOp
  | target :: values => pure (build target values)
  | [] => Reader.fail (.truncatedData truncated)

/-- The operands of a variadic opcode that needs a target and at least one value. -/
def targetAndPayload (truncated : String) (read : String → List String → Decode CoreOp) :
    List String → Decode CoreOp
  | target :: value :: values => read target (value :: values)
  | _ => Reader.fail (.truncatedData truncated)

def readModifiers (name : String) (build : String → List DeclarationModifier → CoreOp) :
    List String → Decode CoreOp :=
  targetAndPayload (name ++ " needs a target_id and at least one modifier")
    fun target values => do
      let modifiers ← readVocabulary DeclarationModifier.fromSerialized
        .invalidDeclarationModifier values
      pure (build target modifiers)

def readSummaries : List String → Decode CoreOp :=
  targetAndPayload "CTRL_SUM needs a method_id and at least one summary"
    fun methodId values => do
      let summaries ← readVocabulary ControlSummary.fromSerialized
        .invalidControlSummary values
      pure (.controlSummary methodId summaries)

def readFacts : List String → Decode CoreOp :=
  targetAndPayload "PAT_FACT needs a method_id and at least one fact"
    fun methodId values =>
      match PatternFact.parseAll values with
      | some facts => pure (.patternFacts methodId facts)
      | none => Reader.fail .invalidPatternFact

/-- The operand match of a variadic opcode; no other opcode reaches it. -/
def variadicOp (opIdx : UInt8) (operands : List String) : Decode CoreOp :=
  match opIdx with
  | opFlags => targetAndValues "FLAGS needs at least target_id" .flags operands
  | opFlagsC => targetAndValues "FLAGS_C needs at least class_id" .classFlags operands
  | opInjects => targetAndValues "INJECTS needs at least class_id" .injects operands
  | opPat => targetAndValues "PAT needs at least pattern_name" .pattern operands
  | opModM => readModifiers "MOD_M" .methodModifiers operands
  | opModC => readModifiers "MOD_C" .classModifiers operands
  | opModI => readModifiers "MOD_I" .interfaceModifiers operands
  | opCtrlSum => readSummaries operands
  | opPatFact => readFacts operands
  | _ => Reader.fail (.unknownOpcode opIdx)

section Operands

variable (strings : List String)

def read2 (build : String → String → CoreOp) : Decode CoreOp := do
  let a ← readOperand strings
  let b ← readOperand strings
  pure (build a b)

def read3 (build : String → String → String → CoreOp) : Decode CoreOp := do
  let a ← readOperand strings
  let b ← readOperand strings
  let c ← readOperand strings
  pure (build a b c)

def readParam : Decode CoreOp := do
  let mid ← readOperand strings
  let pid ← readOperand strings
  let ty ← readOperand strings
  let name ← readOperand strings
  pure (.param mid pid ty name)

def readBody : Decode CoreOp := do
  let mid ← readOperand strings
  let text ← readOperand strings
  let hasSpan ← readWord "BODY span flag"
  if hasSpan = 1 then do
    let start ← readWord "BODY start_byte"
    let stop ← readWord "BODY end_byte"
    pure (.body mid text (some start) (some stop))
  else if hasSpan = 0 then pure (.body mid text none none)
  else Reader.fail (.invalidBodySpanFlag hasSpan)

def readCall (hasSpread : Bool) : Decode CoreOp := do
  let caller ← readOperand strings
  let callee ← readOperand strings
  let argc ← readWord "CALL explicit_arg_count"
  pure (.call caller callee argc hasSpread)

/-- A method operand and a value from a closed vocabulary. -/
def readKind {α : Type} (fromSerialized : String → Option α)
    (invalid : String → BinaryDecodeError) (build : String → α → CoreOp) : Decode CoreOp := do
  let mid ← readOperand strings
  let value ← readOperand strings
  match fromSerialized value with
  | some a => pure (build mid a)
  | none => Reader.fail (invalid value)

/-- The operand match of a fixed-arity opcode. -/
def readFixed (opIdx : UInt8) : Decode CoreOp :=
  match opIdx with
  | opDefC => read2 strings .defClass
  | opDefM => read3 strings .defMethod
  | opDefF => read3 strings .defField
  | opDefI => read2 strings .defInterface
  | opDefIm => read3 strings .defInterfaceMethod
  | opDefIf => read3 strings .defInterfaceField
  | opSig => readParam strings
  | opRet => read2 strings .ret
  | opFieldT => read2 strings .fieldType
  | opExt => read2 strings .classExtends
  | opBaseRef => read2 strings .baseTypeRef
  | opExtI => read2 strings .interfaceExtends
  | opImpl => read2 strings .implements
  | opImp => read3 strings .importModule
  | opType => read2 strings .typeAlias
  | opBody => readBody strings
  | opCall => readCall strings false
  | opCallSpread => readCall strings true
  | opDataflow => read3 strings .dataFlow
  | opCtrl => read3 strings .controlFlow
  | opEffect => readKind strings SideEffectKind.fromSerialized .invalidSideEffect .sideEffect
  | opCtx =>
      readKind strings ExecutionContextKind.fromSerialized .invalidExecutionContext
        .executionContext
  | _ => Reader.fail (.unknownOpcode opIdx)

def readByte (truncated : String) : Decode UInt8 := do
  let cursor ← get
  match cursor.rest with
  | [] => Reader.fail (.truncatedData truncated)
  | byte :: rest => do
      set { pos := cursor.pos + 1, rest : Cursor }
      pure byte

/-- One pass of the instruction loop. -/
def readOp (_ : Nat) : Decode CoreOp := do
  let opIdx ← readByte "opcode byte"
  if opIdx > opMax then Reader.fail (.unknownOpcode opIdx)
  else if isVariadic opIdx then do
    let varCount ← readWord "variadic operand count"
    let operands ← Reader.many (fun _ => readOperand strings) 0 varCount.toNat
    variadicOp opIdx operands
  else readFixed strings opIdx

end Operands

/-- The identity, the string table and the instruction stream. -/
def readStream : Decode CompiledIR := do
  let version ← readWord "IR version"
  let tableLen ← readWord "string table count"
  let strings ← Reader.many readString 0 tableLen.toNat
  let fileId ← readOperand strings
  let instCount ← readWord "instruction count"
  let instructions ← Reader.many (readOp strings) 0 instCount.toNat
  pure { fileId, instructions, version }

/-- Everything after the header; no byte may follow the stream. -/
def readIr : Decode CompiledIR := do
  let ir ← readStream
  let cursor ← get
  if cursor.rest = [] then pure ir
  else Reader.fail (.trailingData cursor.rest.length)

/-- Decode binary wire bytes. -/
def decode (data : List UInt8) : Except BinaryDecodeError CompiledIR :=
  match data with
  | m₀ :: m₁ :: version :: rest =>
      if [m₀, m₁] ≠ magic then .error .invalidMagic
      else if version ≠ schemaVersion then .error (.unsupportedVersion version)
      else (readIr.run { pos := 3, rest }).map Prod.fst
  | _ => .error (.truncatedData "header too short")

end Binary
end CleanCtx
