import CleanCtx.Library.Text
import CleanCtx.Proxy.Scrub

/-!
The filter engine of the proxy (`filters.rs`, `filter_registry.rs`). Parameters
stand for the regex crate, for the JSON parser's verdict on a text, and for the
two floating-point computations: the token estimate and the percentage a marker
shows.
-/
namespace CleanCtx
namespace Proxy

structure FilterEngine extends RegexEngine where
  isMatch : Regex → String → Bool
  /-- The length in bytes of the first match. -/
  findLen : Regex → String → Option Nat
  /-- The first group of the first match, empty where the group took no part. -/
  captureKey : Regex → String → Option String
  /-- `serde_json::from_str::<Value>(text).is_ok()`. -/
  parsesAsJson : String → Bool
  /-- `(word_count as f64 * 1.3) as usize`. -/
  scaleWords : Nat → Nat
  /-- The reduction from the original to the filtered tokens in percent, with one decimal. -/
  percent : Nat → Nat → String

structure CompiledReplace where
  pattern : Regex
  replacement : String
  deriving DecidableEq, Repr

structure CompiledMatchOutput where
  pattern : Regex
  message : String
  unless_ : Option Regex
  deriving DecidableEq, Repr

structure CompiledGroupBy where
  key : Regex
  maxPerGroup : Nat
  maxGroups : Nat
  omitLabel : String
  deriving DecidableEq, Repr

structure CompiledFilter where
  name : String
  matchCommand : Regex
  priority : Int
  stripAnsi : Bool
  reduceJson : Bool
  replace : List CompiledReplace
  matchOutput : List CompiledMatchOutput
  stripLines : List Regex
  keepLines : List Regex
  groupBy : Option CompiledGroupBy
  headLines : Option Nat
  tailLines : Option Nat
  maxLines : Option Nat
  onEmpty : Option String
  deriving DecidableEq, Repr

structure FilterResult where
  content : String
  originalLines : Nat
  filteredLines : Nat
  originalTokens : Nat
  filteredTokens : Nat
  program : String
  truncated : Bool
  collapsed : Bool
  deriving DecidableEq, Repr

/-- The hash maps of the registry in their iteration order; of an override only whether it enables
its filter. -/
structure FilterRegistry where
  builtin : List CompiledFilter
  community : List CompiledFilter
  overrides : List (String × Bool)
  deriving DecidableEq, Repr

def ansiRe : Regex := ⟨"\\x1B\\[[0-9;]*[a-zA-Z]"⟩

def linesOf (s : String) : List String := (lines s.toList).map String.ofList

def wordsOf (s : String) : List String := (words s.toList).map String.ofList

/-- `lines.join("\n")`. -/
def joinLines (lines : List String) : String := "\n".intercalate lines

/-- `s.trim().is_empty()`. -/
def isBlank (s : String) : Bool := (trim s.toList).isEmpty

def firstLines (limit : Option Nat) (state : String × Bool) : String × Bool :=
  match limit with
  | some n =>
      let lines := linesOf state.1
      if n < lines.length then (joinLines (lines.take n), true) else state
  | none => state

def lastLines (limit : Option Nat) (state : String × Bool) : String × Bool :=
  match limit with
  | some n =>
      let lines := linesOf state.1
      if n < lines.length then (joinLines (lines.drop (lines.length - n)), true) else state
  | none => state

namespace FilterEngine

variable (engine : FilterEngine)

def estimateTokens (s : String) : Nat :=
  if isBlank s then 0 else max (engine.scaleWords (wordsOf s).length) 1

def applyReplace (rule : CompiledReplace) (content : String) : String :=
  joinLines ((linesOf content).map fun line =>
    engine.replaceAll rule.pattern line rule.replacement)

def collapse (filter : CompiledFilter) (failed : Bool) (current : String) : Option String :=
  if failed then none
  else (filter.matchOutput.find? fun rule => engine.isMatch rule.pattern current &&
    !(rule.unless_.map fun re => engine.isMatch re current).getD false).map (·.message)

def selectsLine (filter : CompiledFilter) (line : String) : Bool :=
  if filter.keepLines.isEmpty then !filter.stripLines.any (engine.isMatch · line)
  else filter.keepLines.any (engine.isMatch · line)

def selectLines (filter : CompiledFilter) (current : String) : String :=
  if filter.keepLines.isEmpty && filter.stripLines.isEmpty then current
  else joinLines ((linesOf current).filter (engine.selectsLine filter))

def groupLine (gb : CompiledGroupBy) (groups : List (String × List String)) (line : String) :
    List (String × List String) :=
  match engine.captureKey gb.key line with
  | none => groups
  | some key =>
      let groups := if groups.any (·.1 == key) then groups else groups ++ [(key, [])]
      groups.map fun (k, bucket) =>
        if k = key ∧ bucket.length < gb.maxPerGroup then (k, bucket ++ [line]) else (k, bucket)

def applyGroupBy (gb : CompiledGroupBy) (content : String) : String :=
  let groups := (linesOf content).foldl (engine.groupLine gb) []
  let result := (groups.take gb.maxGroups).flatMap (·.2)
  if gb.maxGroups < groups.length then
    let marker := gb.omitLabel.replace "\x7bn\x7d" (groups.length - gb.maxGroups).repr
    joinLines (result ++ [marker.replace "\x7bkey\x7d" "files"])
  else joinLines result

/-- What the stages from `strip_lines` to `max_lines` make of an output that did not collapse. -/
def reduceLines (filter : CompiledFilter) (current : String) : String × Bool :=
  let current := engine.selectLines filter current
  let current :=
    match filter.groupBy with
    | some gb => engine.applyGroupBy gb current
    | none => current
  firstLines filter.maxLines (lastLines filter.tailLines (firstLines filter.headLines (current, false)))

def applyFilter (filter : CompiledFilter) (content : String) (failed : Bool) : FilterResult :=
  let current := if filter.stripAnsi then engine.replaceAll ansiRe content "" else content
  let current := filter.replace.foldl (fun text rule => engine.applyReplace rule text) current
  let collapsed := engine.collapse filter failed current
  let (current, truncated) :=
    match collapsed with
    | some message => (message, false)
    | none => engine.reduceLines filter current
  let current := if isBlank current then filter.onEmpty.getD current else current
  { content := current
    originalLines := (linesOf content).length
    filteredLines := (linesOf current).length
    originalTokens := engine.estimateTokens content
    filteredTokens := engine.estimateTokens current
    program := filter.name
    truncated
    collapsed := collapsed.isSome }

def isCompleteJson (s : String) : Bool :=
  let trimmed := trim s.toList
  (trimmed.head? = some '\x7b' || trimmed.head? = some '[') &&
    (trimmed.getLast? = some '\x7d' || trimmed.getLast? = some ']') &&
      engine.parsesAsJson (String.ofList trimmed)

def maxJsonPassthrough : Nat := 50000

def jsonGuard (original filtered : String) (truncated reduceJson : Bool) : String × Bool :=
  if !truncated || reduceJson then (filtered, truncated)
  else if engine.isCompleteJson original then
    if original.utf8ByteSize ≤ maxJsonPassthrough then (original, false)
    else (s!"[JSON document omitted: {original.utf8ByteSize} bytes]", true)
  else (filtered, truncated)

def buildFilteredMarker (result : FilterResult) : String :=
  "§FILTERED " ++ result.program ++ ": " ++ result.originalLines.repr ++ " → " ++
    result.filteredLines.repr ++ " lines (" ++
      engine.percent result.originalTokens result.filteredTokens ++ "% ↓)"

def candidates (registry : FilterRegistry) (command : String) : List CompiledFilter :=
  ((registry.builtin ++ registry.community).filter fun f =>
    (registry.overrides.lookup f.name).getD true).filter fun f => engine.isMatch f.matchCommand command

def specificityLe (command : String) (f g : CompiledFilter) : Bool :=
  let span (h : CompiledFilter) := (engine.findLen h.matchCommand command).getD 0
  span f < span g || span f = span g && f.priority ≤ g.priority

/-- `max_by_key`: of equal keys the last wins. -/
def selectForCommand (registry : FilterRegistry) (command : String) : Option CompiledFilter :=
  (engine.candidates registry command).foldl
    (fun best f =>
      match best with
      | some g => if engine.specificityLe command g f then some f else some g
      | none => some f) none

/-- What the filters make of the text of a tool result, with the result that is recorded. The
command is taken from the first line that is not blank. -/
def filterText (registry : FilterRegistry) (original : String) : Option (FilterResult × String) :=
  if isBlank original then none
  else
    let firstLine := ((linesOf original).find? fun line => !isBlank line).getD ""
    let filter := (engine.selectForCommand registry firstLine).or
      (engine.selectForCommand registry original)
    filter.map fun filter =>
      let failed := occursIn "exit code" original || occursIn "Exit code" original ||
        occursIn "error:" original
      let result := engine.applyFilter filter original failed
      let guarded := engine.jsonGuard original result.content result.truncated filter.reduceJson
      (result, guarded.1 ++ "\n" ++ engine.buildFilteredMarker result)

end FilterEngine

end Proxy
end CleanCtx
