import CleanCtx.Library.BinarySearch
import CleanCtx.Library.Fallible
import CleanCtx.Library.Utf8

/-!
Membership in comments and strings: the scanner that answers for one position
(`is_inside_comment_or_string` of `meta_util/scanner.rs`), and the index that is built in
one pass (`meta_util/lexical_regions.rs`). The scanner steps over both bytes of a comment
marker; the index goes on from the second one, and so reads the star of `/*/` twice.
-/
namespace CleanCtx
namespace MetaUtil

def newline : UInt8 := 10
def slash : UInt8 := 47
def star : UInt8 := 42
def backslash : UInt8 := 92
def backtick : UInt8 := 96

def isQuote (byte : UInt8) : Bool := byte = 39 || byte = 34 || byte = backtick

section Scanner

structure ScannerState where
  inLineComment : Bool
  inBlockComment : Bool
  /-- The quote, and whether it is that of a template. -/
  inString : Option (UInt8 × Bool)
  interpDepth : Int
  deriving DecidableEq

namespace ScannerState

def initial : ScannerState where
  inLineComment := false
  inBlockComment := false
  inString := none
  interpDepth := 0

/-- One round of the loop, and whether it steps over the next byte as well. -/
def advance (state : ScannerState) (c : UInt8) (next : Option UInt8) : ScannerState × Bool :=
  if state.inLineComment then
    (if c = newline then { state with inLineComment := false } else state, false)
  else if state.inBlockComment then
    if c = star ∧ next = some slash then ({ state with inBlockComment := false }, true)
    else (state, false)
  else
    match state.inString with
    | some (quote, isTemplate) =>
        if isTemplate ∧ 0 < state.interpDepth then
          if c = 123 then ({ state with interpDepth := state.interpDepth + 1 }, false)
          else if c = 125 then
            let state := { state with interpDepth := state.interpDepth - 1 }
            (if state.interpDepth = 0 then { state with inString := some (backtick, true) }
              else state, false)
          else if c = quote then ({ state with inString := some (backtick, true) }, false)
          else (state, false)
        else if c = backslash then (state, true)
        else if c = quote then ({ state with inString := none }, false)
        else (state, false)
    | none =>
        if c = slash ∧ next = some slash then ({ state with inLineComment := true }, true)
        else if c = slash ∧ next = some star then ({ state with inBlockComment := true }, true)
        else if isQuote c then
          ({ state with inString := some (c, decide (c = backtick)) }, false)
        else (state, false)

/-- The loop up to a position that is the given number of bytes away. -/
def run : List UInt8 → Nat → ScannerState → ScannerState
  | [], _, state | _, 0, state => state
  | [c], _ + 1, state => (state.advance c none).1
  | c :: next :: rest, distance + 1, state =>
      let (state, two) := state.advance c (some next)
      if two then run rest (distance - 1) state else run (next :: rest) distance state

def nonCode (state : ScannerState) : Bool :=
  state.inLineComment || state.inBlockComment || state.inString.isSome

end ScannerState

def isInsideCommentOrString (source : String) (pos : Nat) : Bool :=
  (ScannerState.initial.run (utf8 source) pos).nonCode

end Scanner

section Index

structure IndexState where
  inLineComment : Bool
  inBlockComment : Bool
  inString : Option UInt8
  skipNext : Bool
  spanStart : Option Nat
  spans : List (Nat × Nat)
  deriving DecidableEq

namespace IndexState

def initial : IndexState where
  inLineComment := false
  inBlockComment := false
  inString := none
  skipNext := false
  spanStart := none
  spans := []

def nonCode (state : IndexState) : Bool :=
  state.inLineComment || state.inBlockComment || state.inString.isSome

def advance (state : IndexState) (byte : UInt8) (next : Option UInt8) : IndexState :=
  if state.skipNext then { state with skipNext := false }
  else if state.inLineComment then
    if byte = newline then { state with inLineComment := false } else state
  else if state.inBlockComment then
    if byte = star ∧ next = some slash then
      { state with inBlockComment := false, skipNext := true }
    else state
  else
    match state.inString with
    | some quote =>
        if byte = backslash then { state with skipNext := true }
        else if byte = quote then { state with inString := none }
        else state
    | none =>
        if byte = slash ∧ next = some slash then { state with inLineComment := true }
        else if byte = slash ∧ next = some star then { state with inBlockComment := true }
        else if isQuote byte then { state with inString := some byte }
        else state

/-- The edge of a region, if the byte is one. -/
def record (wasNonCode : Bool) (index : Nat) (state : IndexState) : Rust IndexState :=
  if ¬wasNonCode ∧ state.nonCode then pure { state with spanStart := some (index + 1) }
  else if wasNonCode ∧ ¬state.nonCode then do
    let start ← expect "a non-code region must have a recorded start" state.spanStart
    pure { state with spanStart := none, spans := state.spans ++ [(start, index + 1)] }
  else pure state

def run : Nat → List UInt8 → IndexState → Rust IndexState
  | _, [], state => pure state
  | index, byte :: rest, state => do
      let state ← (state.advance byte rest.head?).record state.nonCode index
      run (index + 1) rest state

/-- A region that is still open reaches one position past the source. -/
def finish (state : IndexState) (length : Nat) : List (Nat × Nat) :=
  match state.spanStart with
  | some start => state.spans ++ [(start, length + 1)]
  | none => state.spans

end IndexState

structure LexicalRegions where
  spans : List (Nat × Nat)
  deriving DecidableEq

namespace LexicalRegions

def new (source : String) : Rust LexicalRegions := do
  let bytes := utf8 source
  let state ← IndexState.run 0 bytes IndexState.initial
  pure { spans := state.finish bytes.length }

def compareSpan (pos : Nat) (span : Nat × Nat) : Ordering :=
  if pos < span.1 then .gt else if span.2 ≤ pos then .lt else .eq

def contains (self : LexicalRegions) (pos : Nat) : Bool :=
  (BinarySearch.search (compareSpan pos) self.spans).isSome

end LexicalRegions

end Index

end MetaUtil
end CleanCtx
