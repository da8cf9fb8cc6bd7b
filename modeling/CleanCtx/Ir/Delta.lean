import Std.Data.TreeMap.Lemmas
import CleanCtx.Ir.DeltaKeys

/-!
The legacy delta computer and the intent detector (`ir/delta.rs`). Both walk
operations indexed by primary key, in key order; of two operations with one
key the later one stays in the index.
-/
namespace CleanCtx

/-- High-level semantic intent of a delta. -/
inductive SemanticIntent
  | renameSymbol (oldName newName kind : String)
  | addMethod (className methodName : String)
  | removeMethod (className methodName : String)
  | changeSignature (method fieldChanged : String)
  | addInjection (className dependency : String)
  | changeReturnType (method oldType newType : String)
  deriving DecidableEq

/-- A single field patch. -/
structure FieldPatch where
  fieldIndex : Nat
  newValue : String
  deriving DecidableEq

/-- A modification: a key, then a full replacement or field patches. -/
structure ModOp where
  key : Tuple
  replace : Option Tuple
  patches : Option (List FieldPatch)
  deriving DecidableEq

structure DeltaOps where
  adds : List Tuple
  mods : List ModOp
  dels : List Tuple
  deriving DecidableEq

/-- A structured delta between two IR states. -/
structure IRDelta where
  file : String
  fromVersion : UInt64
  toVersion : UInt64
  ops : DeltaOps
  intent : Option SemanticIntent
  deriving DecidableEq

abbrev IndexedOps := Std.TreeMap String CoreOp

def indexInstructions (instructions : List CoreOp) : IndexedOps :=
  instructions.foldl (fun indexed op => indexed.insert (primaryKey op) op) ∅

/-- The pairs a `for` loop over an index visits, in key order. -/
abbrev IndexedOps.entries (indexed : IndexedOps) : List (String × CoreOp) := indexed.toList

namespace Intent

def rename (baseInsn curInsn : CoreOp) : Option SemanticIntent :=
  match baseInsn, curInsn with
  | .defClass _ oldName, .defClass _ newName =>
      if oldName ≠ newName then some (.renameSymbol oldName newName "class") else none
  | .defMethod _ _ oldName, .defMethod _ _ newName =>
      if oldName ≠ newName then some (.renameSymbol oldName newName "method") else none
  | .defField _ _ oldName, .defField _ _ newName =>
      if oldName ≠ newName then some (.renameSymbol oldName newName "field") else none
  | _, _ => none

def addInjection (baseInsn : Option CoreOp) (curInsn : CoreOp) : Option SemanticIntent :=
  match curInsn with
  | .injects className curDeps =>
      let newlyAdded := match baseInsn with
        | some (.injects _ baseDeps) => curDeps.find? fun dep => !baseDeps.contains dep
        | _ => curDeps.head?
      newlyAdded.map (.addInjection className)
  | _ => none

def addMethod : CoreOp → Option SemanticIntent
  | .defMethod className _ methodName => some (.addMethod className methodName)
  | _ => none

def removeMethod : CoreOp → Option SemanticIntent
  | .defMethod className _ methodName => some (.removeMethod className methodName)
  | _ => none

def changeReturnType (baseInsn curInsn : CoreOp) : Option SemanticIntent :=
  match baseInsn, curInsn with
  | .ret method oldType, .ret _ newType =>
      if oldType ≠ newType then some (.changeReturnType method oldType newType) else none
  | _, _ => none

def changeSignature (baseInsn curInsn : CoreOp) : Option SemanticIntent :=
  match baseInsn, curInsn with
  | .param method _ baseTy baseName, .param _ _ curTy curName =>
      if baseTy ≠ curTy then some (.changeSignature method "param_type")
      else if baseName ≠ curName then some (.changeSignature method "param_name")
      else none
  | _, _ => none

/-- The first detected change among the keys that both indexes hold. -/
def findShared (base cur : IndexedOps) (detect : CoreOp → CoreOp → Option SemanticIntent) :
    Option SemanticIntent :=
  base.entries.findSome? fun (key, baseInsn) => (cur[key]?).bind (detect baseInsn)

/-- The first detected operation whose key the other index lacks. -/
def findOnly (indexed other : IndexedOps) (detect : CoreOp → Option SemanticIntent) :
    Option SemanticIntent :=
  indexed.entries.findSome? fun (key, insn) =>
    if other.contains key then none else detect insn

end Intent

/-- Detect the high-level semantic intent of a delta; the first match wins. -/
def detectSemanticIntent (baseline current : CompiledIR) : Option SemanticIntent :=
  let base := indexInstructions baseline.instructions
  let cur := indexInstructions current.instructions
  Intent.findShared base cur Intent.rename
    <|> cur.entries.findSome? (fun (key, curInsn) => Intent.addInjection base[key]? curInsn)
    <|> Intent.findOnly cur base Intent.addMethod
    <|> Intent.findOnly base cur Intent.removeMethod
    <|> Intent.findShared base cur Intent.changeReturnType
    <|> Intent.findShared base cur Intent.changeSignature

/-- The operations `DeltaComputer::compute` groups: additions, removals, modifications. -/
def computeOps (base cur : IndexedOps) : DeltaOps where
  adds := cur.entries.filterMap fun (key, insn) =>
    if base.contains key then none else some (opToTuple insn)
  dels := base.entries.filterMap fun (key, insn) =>
    if cur.contains key then none else some (opToTuple insn)
  mods := base.entries.filterMap fun (key, baseInsn) =>
    (cur[key]?).bind fun curInsn =>
      if opToTuple baseInsn ≠ opToTuple curInsn then
        some { key := keyTuple baseInsn, replace := some (opToTuple curInsn), patches := none }
      else none

/-- `DeltaComputer::compute`. -/
def computeDelta (baseline current : CompiledIR) : Option IRDelta :=
  let base := indexInstructions baseline.instructions
  let cur := indexInstructions current.instructions
  let ops := computeOps base cur
  if ops.adds = [] ∧ ops.mods = [] ∧ ops.dels = [] then none
  else
    some {
      file := current.fileId, fromVersion := baseline.version, toVersion := current.version, ops,
      intent := detectSemanticIntent baseline current }

/-- Field patches between two tuples; `none` across opcodes and without a difference. -/
def computeFieldPatches (baseTuple curTuple : Tuple) : Option (List FieldPatch) :=
  match baseTuple, curTuple with
  | baseHead :: _, curHead :: _ =>
      if baseHead ≠ curHead then none
      else
        let maxLen := max baseTuple.length curTuple.length
        let patches := (List.range' 1 (maxLen - 1)).filterMap fun i =>
          let curVal := operand curTuple i
          if operand baseTuple i ≠ curVal then some { fieldIndex := i, newValue := curVal }
          else none
        if patches = [] then none else some patches
  | _, _ => none

end CleanCtx
