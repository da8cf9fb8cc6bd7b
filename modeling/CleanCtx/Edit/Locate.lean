import Mathlib.Data.List.MinMax
import CleanCtx.Edit.Apply
import CleanCtx.Ir.Opcodes

/-!
The unit table (`edit/locate.rs`). One pass over the instructions collects the
classes, methods and spanned bodies; a second one files a record for every body
under its qualified name and its method id. Each index keeps one record a key,
so overloads of one qualified name hide one another.
-/
namespace CleanCtx
namespace Edit

structure PendingMeta where
  classId : String
  name : String
  paramTypes : List String
  deriving DecidableEq

structure Collected where
  classes : HashMap String String
  order : List PendingMeta
  indexOfMid : HashMap String Nat
  bodies : HashMap String (String × Nat × Nat)
  bodyOrder : List String
  index_lt : ∀ {mid idx}, indexOfMid.lookup mid = some idx → idx < order.length

namespace Collected

def new : Collected where
  classes := ∅
  order := []
  indexOfMid := ∅
  bodies := ∅
  bodyOrder := []
  index_lt h := by cases h

def collect (state : Collected) : CoreOp → Collected
  | .defClass id name =>
      if id ∈ state.classes then state
      else { state with classes := state.classes.insert id name }
  | .defMethod cid mid name => { state with
      indexOfMid := state.indexOfMid.insert mid state.order.length
      order := state.order ++ [{ classId := cid, name, paramTypes := [] }]
      index_lt := by
        intro found idx h
        rw [List.length_append, List.length_singleton]
        rcases HashMap.lookup_insert_iff.mp h with ⟨-, rfl⟩ | ⟨-, h⟩
        · omega
        · have := state.index_lt h
          omega }
  | .param mid _ ty _ =>
      match state.indexOfMid.lookup mid with
      | none => state
      | some idx => { state with
          order := state.order.modify idx fun pending =>
            { pending with paramTypes := pending.paramTypes ++ [ty] }
          index_lt := fun h => (List.length_modify ..).symm ▸ state.index_lt h }
  | .body mid text (some start) (some stop) => { state with
      bodyOrder := if mid ∈ state.bodies then state.bodyOrder else state.bodyOrder ++ [mid]
      bodies := state.bodies.insert mid (text, start.toNat, stop.toNat) }
  | _ => state

end Collected

namespace UnitTable

def empty : UnitTable where
  units := []
  byQualified := ∅
  byMethodId := ∅
  qualified_lt h := by cases h
  methodId_lt h := by cases h

def push (table : UnitTable) (record : UnitRecord) : UnitTable where
  units := table.units ++ [record]
  byQualified := table.byQualified.insert record.qualifiedName table.units.length
  byMethodId := table.byMethodId.insert record.methodId table.units.length
  qualified_lt := by
    intro name idx h
    rw [List.length_append, List.length_singleton]
    rcases HashMap.lookup_insert_iff.mp h with ⟨-, rfl⟩ | ⟨-, h⟩
    · omega
    · have := table.qualified_lt h
      omega
  methodId_lt := by
    intro name idx h
    rw [List.length_append, List.length_singleton]
    rcases HashMap.lookup_insert_iff.mp h with ⟨-, rfl⟩ | ⟨-, h⟩
    · omega
    · have := table.methodId_lt h
      omega

end UnitTable

def unitRecord (mid : String) (pending : PendingMeta) (className : Option String)
    (body : String × Nat × Nat) : UnitRecord where
  qualifiedName := match className with
    | some c => c ++ "." ++ pending.name
    | none => pending.name
  methodId := mid
  name := pending.name
  startByte := body.2.1
  endByte := body.2.2
  text := body.1
  declarationSpan := none
  fingerprint := className.getD "" ++ "(" ++ String.intercalate "," pending.paramTypes ++ ")"

/-- The record of a method id, when it has a spanned body and a definition. -/
def Collected.record (state : Collected) (mid : String) : Option UnitRecord :=
  match state.bodies.lookup mid with
  | none => none
  | some body =>
      match h : state.indexOfMid.lookup mid with
      | none => none
      | some idx =>
          let pending := state.order.get ⟨idx, state.index_lt h⟩
          some (unitRecord mid pending (state.classes.lookup pending.classId) body)

namespace UnitTable

def materialize (state : Collected) : UnitTable :=
  state.bodyOrder.foldl (fun table mid => (state.record mid).elim table table.push) empty

def fromInstructions (instructions : List CoreOp) : UnitTable :=
  materialize (instructions.foldl Collected.collect .new)

def declarationOf (declarations : List (Nat × Nat)) (unit : UnitRecord) : Option (Nat × Nat) :=
  (declarations.filter fun (start, stop) => start ≤ unit.startByte && stop = unit.endByte).argmin
    fun (start, stop) => stop - start

/-- `from_instructions_with_declarations`, on the declaration spans that the query captured. -/
def fromInstructionsWithDeclarations (instructions : List CoreOp)
    (declarations : List (Nat × Nat)) : UnitTable :=
  let table := fromInstructions instructions
  { table with
    units := table.units.map fun unit =>
      { unit with declarationSpan := declarationOf declarations unit }
    qualified_lt := fun h => (List.length_map _).symm ▸ table.qualified_lt h
    methodId_lt := fun h => (List.length_map _).symm ▸ table.methodId_lt h }

end UnitTable
end Edit
end CleanCtx
