import Mathlib.Data.List.Basic

/-!
The instruction set of the compiler IR (`ir/opcodes.rs`, `ir/opcodes/semantic.rs`).

Opcode strings are one closed vocabulary: `DeltaOpcode` lists it, `fromWire`
reads it, and every later match on an opcode string goes through `fromWire`.
A `usize` operand is a 64-bit word, as on the targets the crate is built for.
-/
namespace CleanCtx

abbrev Tuple := List String

inductive DeclarationModifier
  | async | generator | exported | static | privateMember | protectedMember
  | abstract | unsafeMember
  deriving DecidableEq

namespace DeclarationModifier

def asStr : DeclarationModifier → String
  | async => "ASYNC"
  | generator => "GEN"
  | exported => "EXPORT"
  | static => "STATIC"
  | privateMember => "PRIVATE"
  | protectedMember => "PROTECTED"
  | abstract => "ABSTRACT"
  | unsafeMember => "UNSAFE"

def fromSerialized : String → Option DeclarationModifier
  | "ASYNC" => some async
  | "GEN" => some generator
  | "EXPORT" => some exported
  | "STATIC" => some static
  | "PRIVATE" => some privateMember
  | "PROTECTED" => some protectedMember
  | "ABSTRACT" => some abstract
  | "UNSAFE" => some unsafeMember
  | _ => none

@[simp] theorem fromSerialized_asStr (m : DeclarationModifier) :
    fromSerialized m.asStr = some m := by
  cases m <;> rfl

end DeclarationModifier

inductive ControlSummary
  | branch | loop | return | throw
  deriving DecidableEq

namespace ControlSummary

def asStr : ControlSummary → String
  | branch => "IF"
  | loop => "LOOP"
  | .return => "RET"
  | throw => "THROW"

def fromSerialized : String → Option ControlSummary
  | "IF" => some branch
  | "LOOP" => some loop
  | "RET" => some .return
  | "THROW" => some throw
  | _ => none

@[simp] theorem fromSerialized_asStr (c : ControlSummary) :
    fromSerialized c.asStr = some c := by
  cases c <;> rfl

end ControlSummary

inductive SideEffectKind
  | pure | io | mutation | async | transaction
  deriving DecidableEq

namespace SideEffectKind

def asStr : SideEffectKind → String
  | pure => "pure"
  | io => "io"
  | mutation => "mutation"
  | async => "async"
  | transaction => "transaction"

def fromSerialized : String → Option SideEffectKind
  | "pure" => some pure
  | "io" => some io
  | "mutation" => some mutation
  | "async" => some async
  | "transaction" => some transaction
  | _ => none

@[simp] theorem fromSerialized_asStr (e : SideEffectKind) :
    fromSerialized e.asStr = some e := by
  cases e <;> rfl

end SideEffectKind

inductive ExecutionContextKind
  | sync | async | threadBound | transactionScope | realtime
  deriving DecidableEq

namespace ExecutionContextKind

def asStr : ExecutionContextKind → String
  | sync => "sync"
  | async => "async"
  | threadBound => "thread_bound"
  | transactionScope => "transaction_scope"
  | realtime => "realtime"

def fromSerialized : String → Option ExecutionContextKind
  | "sync" => some sync
  | "async" => some async
  | "thread_bound" => some threadBound
  | "transaction_scope" => some transactionScope
  | "realtime" => some realtime
  | _ => none

@[simp] theorem fromSerialized_asStr (c : ExecutionContextKind) :
    fromSerialized c.asStr = some c := by
  cases c <;> rfl

end ExecutionContextKind

inductive PatternFact
  | constructor
  | observable
  | override
  | getter (property : String)
  | setter (property : String)
  deriving DecidableEq

namespace PatternFact

def isSerializedKind (value : String) : Bool :=
  value = "CTOR" || value = "OBSERVABLE" || value = "OVERRIDE" ||
    value = "GETTER" || value = "SETTER"

def kind : PatternFact → String
  | .constructor => "CTOR"
  | observable => "OBSERVABLE"
  | .override => "OVERRIDE"
  | getter _ => "GETTER"
  | setter _ => "SETTER"

def appendSerialized (fact : PatternFact) (output : List String) : List String :=
  match fact with
  | getter property | setter property => output ++ [fact.kind, property]
  | _ => output ++ [fact.kind]

/-- The `while` loop of `parse_all`; an accessor kind also takes the next value. -/
def parseLoop : List String → Option (List PatternFact)
  | [] => some []
  | "CTOR" :: rest => (parseLoop rest).map (.constructor :: ·)
  | "OBSERVABLE" :: rest => (parseLoop rest).map (observable :: ·)
  | "OVERRIDE" :: rest => (parseLoop rest).map (.override :: ·)
  | "GETTER" :: property :: rest =>
      if property = "" then none else (parseLoop rest).map (getter property :: ·)
  | "SETTER" :: property :: rest =>
      if property = "" then none else (parseLoop rest).map (setter property :: ·)
  | _ => none

def parseAll (values : List String) : Option (List PatternFact) :=
  (parseLoop values).bind fun facts => if facts = [] then none else some facts

end PatternFact

/-- Core IR opcodes, constructor for constructor. -/
inductive CoreOp
  | defClass (id name : String)
  | defMethod (classId methodId name : String)
  | defField (classId fieldId name : String)
  | defInterface (id name : String)
  | defInterfaceMethod (interfaceId methodId name : String)
  | defInterfaceField (interfaceId fieldId name : String)
  | param (methodId paramId type name : String)
  | ret (methodId type : String)
  | fieldType (fieldId type : String)
  | methodModifiers (methodId : String) (modifiers : List DeclarationModifier)
  | classModifiers (classId : String) (modifiers : List DeclarationModifier)
  | interfaceModifiers (interfaceId : String) (modifiers : List DeclarationModifier)
  | controlSummary (methodId : String) (summaries : List ControlSummary)
  | patternFacts (methodId : String) (facts : List PatternFact)
  | flags (targetId : String) (flags : List String)
  | classFlags (classId : String) (flags : List String)
  | classExtends (child parent : String)
  | baseTypeRef (child writtenType : String)
  | interfaceExtends (child parent : String)
  | implements (classId interfaceId : String)
  | injects (classId : String) (deps : List String)
  | importModule (aliasName moduleName named : String)
  | typeAlias (aliasName original : String)
  | pattern (name : String) (args : List String)
  | body (methodId text : String) (startByte endByte : Option UInt64)
  | dataFlow (methodId direction target : String)
  | controlFlow (methodId kind target : String)
  | sideEffect (methodId : String) (effect : SideEffectKind)
  | executionContext (methodId : String) (context : ExecutionContextKind)
  | call (caller callee : String) (argc : UInt64) (hasSpread : Bool)
  deriving DecidableEq

/-- The opcode vocabulary (`DeltaOpcode` of `ir/delta/sequence.rs`). -/
inductive DeltaOpcode
  | defClass | defMethod | defField | defInterface | defInterfaceMethod
  | defInterfaceField | param | ret | fieldType | methodModifiers
  | classModifiers | interfaceModifiers | controlSummary | patternFacts | flags
  | classFlags | classExtends | baseTypeRef | interfaceExtends | implements | injects
  | importModule | typeAlias | pattern | body | dataFlow | controlFlow | sideEffect
  | executionContext | call
  deriving DecidableEq

namespace DeltaOpcode

def fromWire : String → Option DeltaOpcode
  | "DEF_C" => some defClass
  | "DEF_M" => some defMethod
  | "DEF_F" => some defField
  | "DEF_I" => some defInterface
  | "DEF_IM" => some defInterfaceMethod
  | "DEF_IF" => some defInterfaceField
  | "SIG" => some param
  | "RET" => some ret
  | "FIELD_T" => some fieldType
  | "MOD_M" => some methodModifiers
  | "MOD_C" => some classModifiers
  | "MOD_I" => some interfaceModifiers
  | "CTRL_SUM" => some controlSummary
  | "PAT_FACT" => some patternFacts
  | "FLAGS" => some flags
  | "FLAGS_C" => some classFlags
  | "EXT" => some classExtends
  | "BASE_REF" => some baseTypeRef
  | "EXT_I" => some interfaceExtends
  | "IMPL" => some implements
  | "INJECTS" => some injects
  | "IMP" => some importModule
  | "TYPE" => some typeAlias
  | "PAT" => some pattern
  | "BODY" => some body
  | "DATAFLOW" => some dataFlow
  | "CTRL" => some controlFlow
  | "EFFECT" => some sideEffect
  | "CTX" => some executionContext
  | "CALL" => some call
  | _ => none

/-- The wire spelling of an opcode, as `opcode_name` gives it for an operation. -/
def wireName : DeltaOpcode → String
  | defClass => "DEF_C"
  | defMethod => "DEF_M"
  | defField => "DEF_F"
  | defInterface => "DEF_I"
  | defInterfaceMethod => "DEF_IM"
  | defInterfaceField => "DEF_IF"
  | param => "SIG"
  | ret => "RET"
  | fieldType => "FIELD_T"
  | methodModifiers => "MOD_M"
  | classModifiers => "MOD_C"
  | interfaceModifiers => "MOD_I"
  | controlSummary => "CTRL_SUM"
  | patternFacts => "PAT_FACT"
  | flags => "FLAGS"
  | classFlags => "FLAGS_C"
  | classExtends => "EXT"
  | baseTypeRef => "BASE_REF"
  | interfaceExtends => "EXT_I"
  | implements => "IMPL"
  | injects => "INJECTS"
  | importModule => "IMP"
  | typeAlias => "TYPE"
  | pattern => "PAT"
  | body => "BODY"
  | dataFlow => "DATAFLOW"
  | controlFlow => "CTRL"
  | sideEffect => "EFFECT"
  | executionContext => "CTX"
  | call => "CALL"

@[simp] theorem fromWire_wireName (o : DeltaOpcode) : fromWire o.wireName = some o := by
  cases o <;> rfl

theorem eq_wireName_of_fromWire {s : String} {o : DeltaOpcode} (h : fromWire s = some o) :
    s = o.wireName := by
  unfold fromWire at h
  split at h <;> cases h <;> rfl

theorem wireName_injective : Function.Injective wireName := by
  intro a b h
  have := congrArg fromWire h
  simpa using this

end DeltaOpcode

/-- The opcode of an operation. -/
def CoreOp.opcode : CoreOp → DeltaOpcode
  | .defClass .. => .defClass
  | .defMethod .. => .defMethod
  | .defField .. => .defField
  | .defInterface .. => .defInterface
  | .defInterfaceMethod .. => .defInterfaceMethod
  | .defInterfaceField .. => .defInterfaceField
  | .param .. => .param
  | .ret .. => .ret
  | .fieldType .. => .fieldType
  | .methodModifiers .. => .methodModifiers
  | .classModifiers .. => .classModifiers
  | .interfaceModifiers .. => .interfaceModifiers
  | .controlSummary .. => .controlSummary
  | .patternFacts .. => .patternFacts
  | .flags .. => .flags
  | .classFlags .. => .classFlags
  | .classExtends .. => .classExtends
  | .baseTypeRef .. => .baseTypeRef
  | .interfaceExtends .. => .interfaceExtends
  | .implements .. => .implements
  | .injects .. => .injects
  | .importModule .. => .importModule
  | .typeAlias .. => .typeAlias
  | .pattern .. => .pattern
  | .body .. => .body
  | .dataFlow .. => .dataFlow
  | .controlFlow .. => .controlFlow
  | .sideEffect .. => .sideEffect
  | .executionContext .. => .executionContext
  | .call .. => .call

def opcodeName (op : CoreOp) : String := op.opcode.wireName

/-- The compiled IR for a single file. -/
structure CompiledIR where
  fileId : String
  instructions : List CoreOp
  version : UInt64
  deriving DecidableEq

end CleanCtx
