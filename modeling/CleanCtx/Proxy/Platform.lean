import CleanCtx.Library.JsonPlaces

/-!
Platform adapters of the proxy (`platform/`): which blocks of a message each API
format takes for a tool result, and the text an adapter reads from one.
-/
namespace CleanCtx
namespace Proxy

open Value

inductive PlatformAdapter
  | anthropic
  | openai
  | generic
  deriving DecidableEq, Repr

/-- `block[key].as_str() == Some(text)`. -/
def hasText (block : Value) (key text : String) : Bool := (member block key).asStr = some text

def isString (value : Value) : Bool := value.asStr.isSome

def itemsOf (v : Value) : List Value := v.asArray.getD []

/-- The texts of the items of an array, as `filter_map(|item| item["text"].as_str())`. -/
def itemTexts (items : List Value) : List String := items.filterMap fun item => (member item "text").asStr

/-- The text of a `content` member: a string, or the texts of an array of blocks. -/
def contentText (content : Value) : Option String :=
  match content.asStr with
  | some text => some text
  | none => content.asArray.map fun items => "\n".intercalate (itemTexts items)

namespace PlatformAdapter

/-- The fields in which `GenericAdapter` looks for the text of a tool result. -/
def genericHasContent (block : Value) : Bool :=
  isString (member block "content") || isString (member block "output") ||
    isString (member block "result")

def genericNotUser (block : Value) : Bool := !hasText block "role" "user" && !hasText block "role" "system"

def genericHasToolIndicator (block : Value) : Bool :=
  hasText block "role" "tool" || hasText block "type" "tool_result" ||
    hasText block "type" "function_response" || hasText block "type" "tool"

def isToolResult (adapter : PlatformAdapter) (block : Value) : Bool :=
  match adapter with
  | anthropic => hasText block "type" "tool_result"
  | openai => hasText block "role" "tool"
  | generic => genericHasContent block && (genericNotUser block || genericHasToolIndicator block)

end PlatformAdapter

end Proxy
end CleanCtx
