import Mathlib.Data.Finmap
import CleanCtx.Library.PositionIndex
import CleanCtx.Library.Splice
import CleanCtx.Library.Utf8

/-!
Edit application (`edit/apply.rs`, with `edit/ops.rs` and the unit table of
`edit/locate.rs`): every operation is planned as a byte range and its new text,
the batch is checked for overlaps, and the ranges are spliced from the last one
to the first. Offsets are natural numbers; on a 64-bit target a `u64` is a
`usize`.
-/
namespace CleanCtx
namespace Edit

inductive EditOperation
  | replaceBody (target expectedOldText newText : String)
  | insertAfter (anchor unitText : String)
  | insertBefore (anchor unitText : String)
  | delete (target expectedOldText : String)
  deriving DecidableEq

namespace EditOperation

def kind : EditOperation → String
  | replaceBody .. => "replace_body"
  | insertAfter .. => "insert_after"
  | insertBefore .. => "insert_before"
  | delete .. => "delete"

def target : EditOperation → String
  | replaceBody target _ _ | delete target _ => target
  | insertAfter anchor _ | insertBefore anchor _ => anchor

end EditOperation

structure EditOutcome where
  kind : String
  target : String
  startByte : Nat
  endByte : Nat
  byteDelta : Int
  deriving DecidableEq

structure UnitRecord where
  qualifiedName : String
  methodId : String
  name : String
  startByte : Nat
  endByte : Nat
  text : String
  declarationSpan : Option (Nat × Nat)
  fingerprint : String
  deriving DecidableEq

inductive LocateError
  | notFound (target : String)
  | ambiguous (target : String) (candidates : List String)
  deriving DecidableEq

structure UnitTable where
  units : List UnitRecord
  byQualified : HashMap String Nat
  byMethodId : HashMap String Nat
  qualified_lt : ∀ {name idx}, byQualified.lookup name = some idx → idx < units.length
  methodId_lt : ∀ {name idx}, byMethodId.lookup name = some idx → idx < units.length

/-- A target by qualified name, by method id, or by a bare name that is unique. -/
def UnitTable.resolve (table : UnitTable) (target : String) : Except LocateError UnitRecord :=
  match h : table.byQualified.lookup target with
  | some idx => .ok (table.units.get ⟨idx, table.qualified_lt h⟩)
  | none =>
      match h : table.byMethodId.lookup target with
      | some idx => .ok (table.units.get ⟨idx, table.methodId_lt h⟩)
      | none =>
          match table.units.filter (·.name = target) with
          | [] => .error (.notFound target)
          | [unit] => .ok unit
          | candidates => .error (.ambiguous target
              (candidates.map fun unit => unit.qualifiedName ++ " [" ++ unit.fingerprint ++ "]"))

def snippetBound : Nat := 512

inductive EditError
  | locate (error : LocateError)
  | mismatch (target expectedSnippet actualSnippet : String) (expectedLen actualLen : Nat)
  | overlap (firstEnd secondStart : Nat)
  | sourceNotUtf8
  deriving DecidableEq

/-- The longest prefix of whole characters within a number of bytes. -/
def takeBytes : Nat → List Char → List Char
  | _, [] => []
  | bound, c :: rest =>
      if c.utf8Size ≤ bound then c :: takeBytes (bound - c.utf8Size) rest else []

def bounded (text : String) : String :=
  if text.utf8ByteSize ≤ snippetBound then text
  else String.ofList (takeBytes snippetBound text.toList) ++ "…[truncated]"

/-- `replace("\r\n", "\n")`. -/
def collapseEol : List Char → List Char
  | [] => []
  | '\r' :: '\n' :: rest => '\n' :: collapseEol rest
  | c :: rest => c :: collapseEol rest

def eolNormalized (s : String) : String := String.ofList (collapseEol s.toList)

/-- `replace('\n', "\r\n")`. -/
def expandEol (s : List Char) : List Char := s.flatMap fun c => if c = '\n' then ['\r', '\n'] else [c]

def toUnitEol (crlf : Bool) (text : String) : String :=
  if crlf then String.ofList (expandEol (collapseEol text.toList))
  else eolNormalized text

def containsCrlf : List Char → Bool
  | [] => false
  | '\r' :: '\n' :: _ => true
  | _ :: rest => containsCrlf rest

def unitIsCrlf (unitText source : String) : Bool :=
  if unitText.toList.contains '\r' then true
  else if unitText.toList.contains '\n' then false
  else containsCrlf source.toList

def verifyExpected (target actual expected : String) : Except EditError Unit :=
  if eolNormalized actual = eolNormalized expected then .ok ()
  else .error (.mismatch target (bounded expected) (bounded actual) expected.utf8ByteSize
    actual.utf8ByteSize)

structure PlannedEdit where
  kind : String
  target : String
  start : Nat
  stop : Nat
  newText : String
  deriving DecidableEq

/-- One iteration of the planning loop of `apply`. -/
def planEdit (source : String) (units : UnitTable) (op : EditOperation) :
    Except EditError PlannedEdit := do
  let record ← (units.resolve op.target).mapError .locate
  match op with
  | .replaceBody target expectedOldText newText => do
      verifyExpected target record.text expectedOldText
      pure {
        kind := "replace_body"
        target
        start := record.startByte
        stop := record.endByte
        newText := toUnitEol (unitIsCrlf record.text source) newText }
  | .delete target expectedOldText => do
      verifyExpected target record.text expectedOldText
      match record.declarationSpan with
      | none => throw (.locate (.notFound
          (target ++ " (full declaration span unavailable for delete)")))
      | some (start, stop) => pure { kind := "delete", target, start, stop, newText := "" }
  | .insertAfter anchor unitText => pure {
      kind := "insert_after"
      target := anchor
      start := record.endByte
      stop := record.endByte
      newText := toUnitEol (unitIsCrlf record.text source) unitText }
  | .insertBefore anchor unitText => pure {
      kind := "insert_before"
      target := anchor
      start := record.startByte
      stop := record.startByte
      newText := toUnitEol (unitIsCrlf record.text source) unitText }

def plan (source : String) (units : UnitTable) (operations : List EditOperation) :
    Except EditError (List PlannedEdit) := operations.mapM (planEdit source units)

def neighboursConflict (a b : PlannedEdit) : Bool :=
  let aRange : Bool := a.start < a.stop
  let bRange : Bool := b.start < b.stop
  if aRange && bRange then b.start < a.stop && a.start < b.stop
  else (aRange ^^ bRange) && b.start > a.start && b.start < a.stop

def validateDisjoint : List PlannedEdit → Except EditError Unit
  | a :: b :: rest =>
      if neighboursConflict a b then .error (.overlap a.stop b.start)
      else validateDisjoint (b :: rest)
  | _ => .ok ()

/-- `sort_by` of the splice: descending by start, then by end. -/
def spliceOrder (a b : PlannedEdit) : Bool :=
  b.start < a.start || (a.start = b.start && b.stop ≤ a.stop)

def staleSpan (edit : PlannedEdit) (length : Nat) : EditError :=
  .locate (.notFound (edit.target ++ " (stale span " ++ toString edit.start ++ ".." ++
    toString edit.stop ++ " beyond file length " ++ toString length ++ ")"))

/-- One iteration of the splicing loop. -/
def spliceEdit (state : List UInt8 × List EditOutcome) (edit : PlannedEdit) :
    Except EditError (List UInt8 × List EditOutcome) :=
  let (out, outcomes) := state
  if edit.start > out.length ∨ edit.stop > out.length ∨ edit.start > edit.stop then
    .error (staleSpan edit out.length)
  else
    .ok (spliceAt out edit.start edit.stop (utf8 edit.newText),
      outcomes ++ [{
        kind := edit.kind
        target := edit.target
        startByte := edit.start
        endByte := edit.start + (utf8 edit.newText).length
        byteDelta := ((utf8 edit.newText).length : Int) - (edit.stop - edit.start : Nat) }])

structure ApplyReport where
  newSource : String
  operations : List EditOutcome
  deriving DecidableEq

def splice (source : String) (planned : List PlannedEdit) : Except EditError ApplyReport := do
  let (out, outcomes) ← (planned.mergeSort spliceOrder).foldlM spliceEdit (utf8 source, [])
  match fromUtf8 out with
  | none => throw .sourceNotUtf8
  | some newSource => pure { newSource, operations := outcomes.reverse }

def apply (source : String) (units : UnitTable) (operations : List EditOperation) :
    Except EditError ApplyReport := do
  let planned ← plan source units operations
  validateDisjoint planned
  splice source planned

end Edit
end CleanCtx
