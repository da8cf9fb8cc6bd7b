import CleanCtx.Library.JsonPlaces

/-!
Injection of prompt-cache breakpoints (`cache.rs`). A request body is changed in
place through indexed access: reading an absent member as a mutable place
creates it as `null`, a `null` becomes an object, and any other kind of value
panics, which is the result `none` here.
-/
namespace CleanCtx
namespace Proxy

open Value

def smallBlockThreshold : Nat := 500

structure CacheStats where
  totalInjected : Nat
  toolsSlots : Nat
  systemSlots : Nat
  messagesSlots : Nat
  tailSlots : Nat
  smallBlocksFiltered : Nat
  clientBreakpointsStripped : Nat
  clientBreakpointsPreserved : Nat
  deriving DecidableEq, Repr

def cacheControl : String := "cache_control"

/-- `block["cache_control"] = marker`. -/
def mark (marker : Value) (block : Value) : Option (Value × Unit) :=
  atKey cacheControl (fun _ => some (marker, ())) block

/-- `as_object_mut().and_then(|o| o.remove("cache_control")).is_some()`. -/
def removeMarker (block : Value) : Value × Bool :=
  match block with
  | .object members =>
      if (members.lookup cacheControl).isSome then
        (.object (members.filter fun m => m.1 ≠ cacheControl), true)
      else (block, false)
  | _ => (block, false)

def stripBlock (block : Value) : Option (Value × Nat) :=
  let (block, removed) := removeMarker block
  some (block, if removed then 1 else 0)

def stripExistingBreakpoints (body : Value) : Option (Value × Nat) := do
  let (body, tools) ← atKey "tools" (onArray 0 (forEach stripBlock)) body
  let (body, system) ← atKey "system" (onArray 0 (forEach stripBlock)) body
  let (body, messages) ← atKey "messages"
    (onArray 0 (forEach (atKey "content" (onArray 0 (forEach stripBlock))))) body
  some (body, tools + system + messages)

def hasMarker (value : Value) : Bool := (value.get cacheControl).isSome

def arrayHasMarker (value : Value) : Bool := (value.asArray.getD []).any hasMarker

def hasAnyBreakpoints (body : Value) : Bool :=
  arrayHasMarker (member body "tools") || arrayHasMarker (member body "system") ||
    ((member body "messages").asArray.getD []).any fun msg => arrayHasMarker (member msg "content")

def ephemeral : Value := .object [("type", .string "ephemeral")]

def ephemeralFor (ttl : String) : Value :=
  .object [("type", .string "ephemeral"), ("ttl", .string ttl)]

/-- A block whose `type` the tail and first-message slots accept. -/
def isCacheable (block : Value) : Bool :=
  ((member block "type").asStr.map fun t => t = "text" || t = "tool_result" || t = "image").getD false

def isLarge (block : Value) : Bool :=
  ((member block "text").asStr.map fun t => decide (smallBlockThreshold < t.utf8ByteSize)).getD false

def isSmall (block : Value) : Bool :=
  ((member block "text").asStr.map fun t => decide (t.utf8ByteSize < smallBlockThreshold)).getD true

def toolsSlot (tools : List Value) : Option (List Value × Bool) :=
  if tools.isEmpty then some (tools, false)
  else (atIndex (mark ephemeral) (tools.length - 1) tools).map fun (tools, _) => (tools, true)

/-- The system blocks after the slot, whether it was placed, and how many small blocks lost a
marker. -/
def systemSlot (system : List Value) : Option (List Value × Bool × Nat) :=
  match rposition isLarge system with
  | none => some (system, false, 0)
  | some target => do
      let (system, filtered) ← forEach
        (fun block => if isSmall block then stripBlock block else some (block, 0)) system
      let (system, _) ← atIndex (mark ephemeral) target system
      some (system, true, filtered)

def firstContentSlot (content : List Value) : Option (List Value × Bool) :=
  match rposition isCacheable content with
  | none => some (content, false)
  | some idx => (atIndex (mark ephemeral) idx content).map fun (content, _) => (content, true)

def firstMessageSlot (messages : List Value) : Option (List Value × Bool) :=
  match messages with
  | [] => some ([], false)
  | first :: rest =>
      (atKey "content" (onArray false firstContentSlot) first).map
        fun (first, placed) => (first :: rest, placed)

def tailContentSlot (ttl : String) (content : List Value) : Option (List Value × Bool) :=
  fromBack (fun block =>
    if isCacheable block then (mark (ephemeralFor ttl) block).map fun (block, _) => (block, true)
    else some (block, false)) content

def tailSlot (ttl : String) (messages : List Value) : Option (List Value × Bool) :=
  fromBack (atKey "content" (onArray false (tailContentSlot ttl))) messages

def injectBreakpoints (body : Value) (tailTtl : String) (stats : CacheStats) :
    Option (Value × Nat × CacheStats) :=
  match body with
  | .object _ =>
      if hasAnyBreakpoints body then
        some (body, 0,
          { stats with clientBreakpointsPreserved := stats.clientBreakpointsPreserved + 1 })
      else do
        let maxSlots := 4
        let (body, stripped) ← stripExistingBreakpoints body
        let stats :=
          { stats with clientBreakpointsStripped := stats.clientBreakpointsStripped + stripped }
        let (body, placed) ← atKey "tools" (onArray false toolsSlot) body
        let slots := if placed then 1 else 0
        let stats := { stats with toolsSlots := stats.toolsSlots + if placed then 1 else 0 }
        if maxSlots ≤ slots then
          some (body, slots, { stats with totalInjected := stats.totalInjected + 1 })
        else
          let (body, placed, filtered) ← atKey "system" (onArray (false, 0) systemSlot) body
          let slots := slots + if placed then 1 else 0
          let stats :=
            { stats with
              systemSlots := stats.systemSlots + if placed then 1 else 0
              smallBlocksFiltered := stats.smallBlocksFiltered + filtered }
          if maxSlots ≤ slots then
            some (body, slots, { stats with totalInjected := stats.totalInjected + 1 })
          else
            let (body, placed) ← atKey "messages" (onArray false firstMessageSlot) body
            let slots := slots + if placed then 1 else 0
            let stats :=
              { stats with messagesSlots := stats.messagesSlots + if placed then 1 else 0 }
            if maxSlots ≤ slots then
              some (body, slots, { stats with totalInjected := stats.totalInjected + 1 })
            else
              let (body, placed) ← atKey "messages" (onArray false (tailSlot tailTtl)) body
              let slots := slots + if placed then 1 else 0
              let stats := { stats with tailSlots := stats.tailSlots + if placed then 1 else 0 }
              some (body, slots,
                if 0 < slots then { stats with totalInjected := stats.totalInjected + 1 } else stats)
  | _ => some (body, 0, stats)

end Proxy
end CleanCtx
