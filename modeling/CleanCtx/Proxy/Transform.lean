import CleanCtx.Proxy.Filters
import CleanCtx.Proxy.Platform

/-!
Transforms of a request body (`transform.rs`) and the pipeline that runs them
(`pipeline.rs`). As in `cache.rs` a member reached through mutable indexing is
created when it is absent, and a value that is no object panics, which is the
result `none`.
-/
namespace CleanCtx
namespace Proxy

open Value

structure Rewrite where
  content : String
  matched : Nat
  deriving DecidableEq, Repr

/-- `block[key]` rewritten where it is a string with a match. -/
def rewriteText (rewrite : String → Rewrite) (key : String) (block : Value) : Option (Value × Nat) :=
  match (member block key).asStr with
  | some text =>
      let result := rewrite text
      if 0 < result.matched then
        (atKey key (fun _ => some (.string result.content, ())) block).map
          fun (block, _) => (block, result.matched)
      else some (block, 0)
  | none => some (block, 0)

def rewriteBlock (rewrite : String → Rewrite) (adapter : PlatformAdapter) (block : Value) :
    Option (Value × Nat) := do
  let (block, own) ← rewriteText rewrite "text" block
  if adapter.isToolResult block then
    let (block, content) ← rewriteText rewrite "content" block
    let (block, inner) ← atKey "content" (onArray 0 (forEach (rewriteText rewrite "text"))) block
    some (block, own + content + inner)
  else some (block, own)

/-- The walk of `strip_ansi` and `scrub_secrets`, which differ in the rewriting only. -/
def rewriteTexts (rewrite : String → Rewrite) (adapter : PlatformAdapter) (body : Value) :
    Option (Value × Nat) :=
  atKey "messages"
    (onArray 0 (forEach (atKey "content" (onArray 0 (forEach (rewriteBlock rewrite adapter)))))) body

namespace RegexEngine

variable (engine : RegexEngine)

def ansiRewrite (text : String) : Rewrite :=
  { content := engine.replaceAll ansiRe text "", matched := engine.captureCount ansiRe text }

/-- `scrub::scrub_secrets` with the number of its hits. -/
def scrubRewrite (text : String) : Rewrite :=
  let result := engine.scrubSecrets text
  { content := result.content, matched := result.hits.length }

def stripAnsi (adapter : PlatformAdapter) (body : Value) : Option (Value × Nat) :=
  rewriteTexts engine.ansiRewrite adapter body

/-- `transform::scrub_secrets`. -/
def scrubBody (adapter : PlatformAdapter) (body : Value) : Option (Value × Nat) :=
  rewriteTexts engine.scrubRewrite adapter body

end RegexEngine

def toolName (tool : Value) : String := (member tool "name").asStr.getD ""

def dropTools (dropSet : List String) (body : Value) : Option (Value × Nat) :=
  if dropSet.isEmpty then some (body, 0)
  else if (itemsOf (member body "tools")).isEmpty then some (body, 0)
  else
    atKey "tools" (onArray 0 fun tools =>
      let kept := tools.filter fun tool => !dropSet.contains (toolName tool)
      some (kept, tools.length - kept.length)) body

def trimMarker : List Char :=
  ['C', 'o', 'm', 'm', 'i', 't', 't', 'i', 'n', 'g', ' ', 'c', 'h', 'a', 'n', 'g', 'e', 's']

def trimNotice : String :=
  "…\n\n[Git commit/PR sections removed by proxy — set TRIM_BASH_GIT=0 to restore]"

def trimDescription (description : String) : Option String :=
  (textBefore trimMarker description.toList).map fun before => String.ofList before ++ trimNotice

def trimTool (tool : Value) : Option (Value × Bool) :=
  if toolName tool = "Bash" then
    match (member tool "description").asStr.bind trimDescription with
    | some trimmed =>
        (atKey "description" (fun _ => some (.string trimmed, ())) tool).map fun (tool, _) => (tool, true)
    | none => some (tool, false)
  else some (tool, false)

def trimBashGit (body : Value) : Option (Value × Bool) :=
  atKey "tools" (onArray false (untilFound trimTool)) body

def modelRe : Regex := ⟨"claude-[a-z]+-\\d[\\d.-]+[a-z\\d]"⟩

def modelRewrite (model current : String) : Rewrite :=
  if current = model then { content := current, matched := 0 } else { content := model, matched := 1 }

/-- Model names in a text of the system prompt, as one rewriting. -/
def RegexEngine.systemRewrite (engine : RegexEngine) (model text : String) : Rewrite :=
  let rewritten := engine.replaceAll modelRe text model
  if (occursIn "Claude" text || occursIn "claude" text) && rewritten ≠ text then
    { content := rewritten, matched := 1 }
  else { content := text, matched := 0 }

def RegexEngine.overrideModel (engine : RegexEngine) (model : String) (body : Value) :
    Option (Value × Bool) := do
  let (body, renamed) ← rewriteText (modelRewrite model) "model" body
  let (body, rewritten) ← atKey "system"
    (onArray 0 (forEach (rewriteText (engine.systemRewrite model) "text"))) body
  some (body, decide (0 < renamed + rewritten))

/-- `block["content"] = text`. -/
def setContent (text : String) (block : Value) : Option (Value × Unit) :=
  atKey "content" (fun _ => some (.string text, ())) block

def textBlock (text : String) : Value := .object [("type", .string "text"), ("text", .string text)]

namespace FilterEngine

variable (engine : FilterEngine)

def filterBlock (registry : FilterRegistry) (adapter : PlatformAdapter) (block : Value) :
    Option (Value × List FilterResult) :=
  if adapter.isToolResult block then
    match (contentText (member block "content")).bind (engine.filterText registry) with
    | some (result, finalContent) =>
        if isString (member block "content") then
          (setContent finalContent block).map fun (block, _) => (block, [result])
        else
          (atKey "content" (onArray () fun _ => some ([textBlock finalContent], ())) block).map
            fun (block, _) => (block, [result])
    | none => some (block, [])
  else some (block, [])

def applyToolFilters (registry : FilterRegistry) (adapter : PlatformAdapter) (body : Value) :
    Option (Value × List FilterResult) :=
  atKey "messages"
    (onArray [] (forEachIdx (fun _ => atKey "content"
      (onArray [] (forEachIdx (fun _ => engine.filterBlock registry adapter) 0))) 0)) body

end FilterEngine

/-- The characters a path is trimmed of: the backtick is the one given by its code. -/
def isPathQuote (c : Char) : Bool :=
  ['"', '\'', Char.ofNat 96, ',', ')', ']', '\x7d'].contains c

def isSeparator (c : Char) : Bool := c = '/' || c = '\\'

def trimPath (word : List Char) : List Char :=
  ((word.dropWhile isPathQuote).reverse.dropWhile isPathQuote).reverse

def extractPathStringsFromText (text : String) : List (List Char) :=
  ((words text.toList).filter (·.any isSeparator)).map trimPath |>.filter fun path =>
    path.any fun c => c = '.' || isSeparator c

def extractPathStrings (msg : Value) : List (List Char) :=
  ((itemsOf (member msg "content")).flatMap fun block =>
    (member block "text").asStr.toList ++ (member block "content").asStr.toList ++
      itemTexts (itemsOf (member block "content"))).flatMap extractPathStringsFromText ++
    (member msg "text").asStr.toList.flatMap extractPathStringsFromText

def crossReferenced (recentPaths : List (List Char)) (text : String) : Bool :=
  (extractPathStringsFromText text).any fun path => recentPaths.any fun recent => decide (path <:+: recent)

def estimateTokens (text : String) : Nat := text.utf8ByteSize / 4 + 1

def resultName (block : Value) : String :=
  ((member block "tool_use_id").asStr.or (member block "name").asStr).getD "unknown"

def agedStub (block : Value) (text : String) (turn : Nat) : String :=
  "[aged: " ++ resultName block ++ " output, " ++ (estimateTokens text).repr ++ " tokens, turn " ++
    turn.repr ++ "]"

/-- The text of a block that is to be aged: of a tool result, not empty, no path of it mentioned
recently, and old enough. -/
def agedText (adapter : PlatformAdapter) (recentPaths : List (List Char))
    (totalMessages maxAgeTurns turn : Nat) (block : Value) : Option String :=
  if adapter.isToolResult block then
    let text := (contentText (member block "content")).getD ""
    if text.isEmpty || crossReferenced recentPaths text || decide (totalMessages - turn ≤ maxAgeTurns) then
      none
    else some text
  else none

def ageBlock (adapter : PlatformAdapter) (recentPaths : List (List Char))
    (totalMessages maxAgeTurns turn : Nat) (block : Value) : Option (Value × List Nat) :=
  match agedText adapter recentPaths totalMessages maxAgeTurns turn block with
  | some text =>
      let stub := agedStub block text turn
      (setContent stub block).map fun (block, _) => (block, [text.utf8ByteSize - stub.utf8ByteSize])
  | none => some (block, [])

def agePreserved (totalMessages forcePreserveFloor turn : Nat) (msg : Value) : Bool :=
  decide (totalMessages - forcePreserveFloor ≤ turn) || hasText msg "role" "assistant" ||
    hasText msg "role" "system"

/-- A message without content blocks is skipped before its content is reached for writing. -/
def ageMessage (adapter : PlatformAdapter) (recentPaths : List (List Char))
    (totalMessages maxAgeTurns forcePreserveFloor turn : Nat) (msg : Value) :
    Option (Value × List Nat) :=
  if agePreserved totalMessages forcePreserveFloor turn msg ||
      (itemsOf (member msg "content")).isEmpty then some (msg, [])
  else
    atKey "content" (onArray [] (forEachIdx
      (fun _ => ageBlock adapter recentPaths totalMessages maxAgeTurns turn) 0)) msg

def recentPaths (forcePreserveFloor : Nat) (messages : List Value) : List (List Char) :=
  (messages.drop (messages.length - forcePreserveFloor)).flatMap extractPathStrings

/-- The body, and for each aged item the bytes that were removed. -/
def ageToolResults (adapter : PlatformAdapter) (maxAgeTurns forcePreserveFloor : Nat) (body : Value) :
    Option (Value × List Nat) :=
  atKey "messages" (onArray [] fun messages =>
    forEachIdx (ageMessage adapter (recentPaths forcePreserveFloor messages) messages.length
      maxAgeTurns forcePreserveFloor) 0 messages) body

structure SlidingWindowStats where
  itemsAged : Nat
  bytesRemoved : Nat
  cumulativeBytesRemoved : Nat
  deriving DecidableEq, Repr

def SlidingWindowStats.record (stats : SlidingWindowStats) (bytes : Nat) : SlidingWindowStats :=
  { itemsAged := stats.itemsAged + 1
    bytesRemoved := stats.bytesRemoved + bytes
    cumulativeBytesRemoved := stats.cumulativeBytesRemoved + bytes }

/-- The counters of the transforms; of the filter statistics the applications in order. -/
structure TransformStats where
  toolsDropped : Nat
  ansiSequencesStripped : Nat
  bashGitTrims : Nat
  modelOverrides : Nat
  secretsScrubbed : Nat
  toolFiltersApplied : Nat
  filterStats : List FilterResult
  slidingWindow : SlidingWindowStats
  deriving DecidableEq, Repr

structure PipelineConfig where
  dropToolsSet : List String
  stripAnsi : Bool
  trimBashGit : Bool
  modelOverride : Option String
  scrubSecrets : Bool
  toolFilters : Bool
  filterRegistry : Option FilterRegistry
  slidingWindowEnabled : Bool
  slidingWindowMaxAgeTurns : Nat
  slidingWindowForcePreserveFloor : Nat
  deriving DecidableEq, Repr

/-- The closures `Pipeline::build` pushes, each with what it captures. -/
inductive TransformFn
  | dropTools
  | stripAnsi
  | trimBashGit
  | overrideModel (model : String)
  | scrubSecrets
  | applyToolFilters (registry : FilterRegistry)
  | ageToolResults (maxAgeTurns forcePreserveFloor : Nat)
  deriving DecidableEq, Repr

structure Pipeline where
  transforms : List TransformFn
  deriving DecidableEq, Repr

def Pipeline.build (config : PipelineConfig) : Pipeline :=
  { transforms :=
      (if config.dropToolsSet.isEmpty then [] else [.dropTools]) ++
        (if config.stripAnsi then [.stripAnsi] else []) ++
        (if config.trimBashGit then [.trimBashGit] else []) ++
        (config.modelOverride.map .overrideModel).toList ++
        (if config.scrubSecrets then [.scrubSecrets] else []) ++
        (if config.toolFilters then (config.filterRegistry.map .applyToolFilters).toList else []) ++
        (if config.slidingWindowEnabled then
          [.ageToolResults config.slidingWindowMaxAgeTurns config.slidingWindowForcePreserveFloor]
        else []) }

namespace FilterEngine

variable (engine : FilterEngine)

def applyTransform (config : PipelineConfig) (adapter : PlatformAdapter) (body : Value)
    (stats : TransformStats) : TransformFn → Option (Value × TransformStats)
  | .dropTools => (dropTools config.dropToolsSet body).map fun (body, dropped) =>
      (body, { stats with toolsDropped := stats.toolsDropped + dropped })
  | .stripAnsi => (engine.stripAnsi adapter body).map fun (body, stripped) =>
      (body, { stats with ansiSequencesStripped := stats.ansiSequencesStripped + stripped })
  | .trimBashGit => (trimBashGit body).map fun (body, trimmed) =>
      (body, { stats with bashGitTrims := stats.bashGitTrims + trimmed.toNat })
  | .overrideModel model => (engine.overrideModel model body).map fun (body, changed) =>
      (body, { stats with modelOverrides := stats.modelOverrides + changed.toNat })
  | .scrubSecrets => (engine.scrubBody adapter body).map fun (body, hits) =>
      (body, { stats with secretsScrubbed := stats.secretsScrubbed + hits })
  | .applyToolFilters registry =>
      (engine.applyToolFilters registry adapter body).map fun (body, applied) =>
        (body, { stats with
          toolFiltersApplied := stats.toolFiltersApplied + applied.length
          filterStats := stats.filterStats ++ applied })
  | .ageToolResults maxAgeTurns forcePreserveFloor =>
      (Proxy.ageToolResults adapter maxAgeTurns forcePreserveFloor body).map fun (body, removed) =>
        (body, if removed.isEmpty then stats
          else { stats with slidingWindow := stats.slidingWindow.record removed.sum })

/-- The loop of `Pipeline::run`. -/
def runTransforms (config : PipelineConfig) (adapter : PlatformAdapter) :
    List TransformFn → Value → TransformStats → Option (Value × TransformStats)
  | [], body, stats => some (body, stats)
  | transform :: rest, body, stats => do
      let (body, stats) ← engine.applyTransform config adapter body stats transform
      runTransforms config adapter rest body stats

def runPipeline (pipeline : Pipeline) (config : PipelineConfig) (adapter : PlatformAdapter)
    (body : Value) (stats : TransformStats) : Option (Value × TransformStats) :=
  engine.runTransforms config adapter pipeline.transforms body stats

end FilterEngine

end Proxy
end CleanCtx
