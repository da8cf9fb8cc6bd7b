import CleanCtx.Library.Utf8
import CleanCtx.Proxy.Cache
import CleanCtx.Proxy.Transform

/-!
The relay of a request to the upstream (`server.rs`). An intercepted body is
parsed, transformed and serialized again, any other body passes as it is; the
headers go through a filter in both directions. Parameters stand for serde_json,
and for the answer of the upstream. The statistics and the log files the handlers
keep beside the relay are left out.
-/
namespace CleanCtx
namespace Proxy

/-- `str::to_ascii_lowercase`. -/
def toAsciiLowercase (s : String) : String := String.ofList (s.toList.map Char.toLower)

/-- A header as `hyper` holds it, its name in lower case. -/
structure Header where
  name : String
  value : List UInt8
  lower : toAsciiLowercase name = name
  deriving DecidableEq

structure Parts where
  method : String
  path : String
  pathAndQuery : String
  headers : List Header
  deriving DecidableEq

structure UpstreamRequest where
  method : String
  uri : String
  headers : List Header
  body : List UInt8
  deriving DecidableEq

structure HttpResponse where
  status : Nat
  headers : List Header
  body : List UInt8
  deriving DecidableEq

inductive ProxyError
  | body (message : String)
  | upstream
  deriving DecidableEq

structure ProxyConfig where
  upstreamUrl : String
  autoCache : Bool
  tailTtl : String
  dropToolsSet : List String
  stripAnsi : Bool
  trimBashGit : Bool
  modelOverride : Option String
  scrubSecrets : Bool
  toolFilters : Bool
  platform : Option String
  maxRequestBodySize : Nat
  slidingWindowEnabled : Bool
  slidingWindowMaxAgeTurns : Nat
  slidingWindowForcePreserveFloor : Nat

/-- `ProxyConfig::default`. -/
def ProxyConfig.standard : ProxyConfig where
  upstreamUrl := "https://api.anthropic.com"
  autoCache := false
  tailTtl := "5m"
  dropToolsSet := []
  stripAnsi := false
  trimBashGit := false
  modelOverride := none
  scrubSecrets := false
  toolFilters := false
  platform := none
  maxRequestBodySize := 10 * 1024 * 1024
  slidingWindowEnabled := false
  slidingWindowMaxAgeTurns := 20
  slidingWindowForcePreserveFloor := 15

/-- The server with the libraries its handlers call. -/
structure ProxyServer where
  config : ProxyConfig
  filterRegistry : FilterRegistry
  engine : FilterEngine
  /-- `serde_json::from_slice`, or the text of its error. -/
  fromSlice : List UInt8 → Except String Value
  /-- `serde_json::to_vec`. -/
  toVec : Value → List UInt8

def eqIgnoreAsciiCase (s t : String) : Bool := toAsciiLowercase s = toAsciiLowercase t

/-- Hop-by-hop headers are not forwarded. -/
def shouldForwardHeader (name : String) : Bool :=
  !eqIgnoreAsciiCase name "host"
    && !eqIgnoreAsciiCase name "connection"
    && !eqIgnoreAsciiCase name "keep-alive"
    && !eqIgnoreAsciiCase name "transfer-encoding"
    && !eqIgnoreAsciiCase name "te"
    && !eqIgnoreAsciiCase name "trailer"
    && !eqIgnoreAsciiCase name "upgrade"

def safeHeaders : List String :=
  ["content-type", "content-length", "x-request-id", "anthropic-ratelimit-requests-limit",
    "anthropic-ratelimit-requests-remaining", "anthropic-ratelimit-tokens-limit",
    "anthropic-ratelimit-tokens-remaining", "anthropic-ratelimit-tokens-reset",
    "anthropic-ratelimit-requests-reset"]

def anthropicBetaHeader : String := "extended-cache-ttl-2025-04-11"

namespace PlatformAdapter

def isPlatformModel (adapter : PlatformAdapter) (model : String) : Bool :=
  match adapter with
  | anthropic => occursIn "claude" model
  | openai => model.startsWith "gpt-" || model.startsWith "o1" || model.startsWith "o3"
      || model.startsWith "o4" || model.startsWith "chatgpt-"
  | generic => true

def platformName : PlatformAdapter → String
  | anthropic => "anthropic"
  | openai => "openai"
  | generic => "generic"

end PlatformAdapter

def detectPlatform (body : Value) : PlatformAdapter :=
  let model := (body.member "model").asStr.getD ""
  if PlatformAdapter.anthropic.isPlatformModel model then .anthropic
  else if PlatformAdapter.openai.isPlatformModel model then .openai
  else .generic

/-- The letters of the names have no lower case but the ASCII one. -/
def getPlatform (name : String) : PlatformAdapter :=
  if toAsciiLowercase name = "anthropic" then .anthropic
  else if toAsciiLowercase name = "openai" then .openai
  else .generic

def TransformStats.fresh : TransformStats :=
  { toolsDropped := 0, ansiSequencesStripped := 0, bashGitTrims := 0, modelOverrides := 0
    secretsScrubbed := 0, toolFiltersApplied := 0, filterStats := []
    slidingWindow := { itemsAged := 0, bytesRemoved := 0, cumulativeBytesRemoved := 0 } }

def CacheStats.fresh : CacheStats :=
  { totalInjected := 0, toolsSlots := 0, systemSlots := 0, messagesSlots := 0, tailSlots := 0
    smallBlocksFiltered := 0, clientBreakpointsStripped := 0, clientBreakpointsPreserved := 0 }

/-- `read_body`: the frames together, if they are not too many bytes. -/
def readBody (body : List UInt8) (maxSize : Nat) : Except ProxyError (List UInt8) :=
  if maxSize < body.length then
    .error (.body ("Request body too large (max " ++ maxSize.repr ++ " bytes)"))
  else .ok body

/-- What a handler does: the request it sends to the upstream, if it sends one, and its outcome. -/
structure Relay where
  sent : Option UpstreamRequest
  outcome : Except ProxyError HttpResponse

/-- The relay with an answer for the client also where it failed. -/
def Relay.orElse (relay : Relay) (failure : HttpResponse) : Option UpstreamRequest × HttpResponse :=
  match relay.outcome with
  | .ok response => (relay.sent, response)
  | .error _ => (relay.sent, failure)

namespace ProxyServer

variable (server : ProxyServer)

def pipelineConfig : PipelineConfig where
  dropToolsSet := server.config.dropToolsSet
  stripAnsi := server.config.stripAnsi
  trimBashGit := server.config.trimBashGit
  modelOverride := server.config.modelOverride
  scrubSecrets := server.config.scrubSecrets
  toolFilters := server.config.toolFilters
  filterRegistry := some server.filterRegistry
  slidingWindowEnabled := server.config.slidingWindowEnabled
  slidingWindowMaxAgeTurns := server.config.slidingWindowMaxAgeTurns
  slidingWindowForcePreserveFloor := server.config.slidingWindowForcePreserveFloor

def adapterFor (body : Value) : PlatformAdapter :=
  match server.config.platform with
  | some platformName => getPlatform platformName
  | none => detectPlatform body

/-- The body after the pipeline and the injection of breakpoints, `none` where one of them
panics. -/
def transformed (body : Value) : Option Value := do
  let adapter := server.adapterFor body
  let (body, _) ← server.engine.runPipeline (Pipeline.build server.pipelineConfig)
    server.pipelineConfig adapter body TransformStats.fresh
  if server.config.autoCache && adapter.platformName == "anthropic" then
    let (body, _, _) ← injectBreakpoints body server.config.tailTtl CacheStats.fresh
    some body
  else some body

def upstreamHeaders (parts : Parts) (reqId : String) : List Header :=
  parts.headers.filter (shouldForwardHeader ·.name) ++
    (if server.config.autoCache && server.config.platform != some "openai" then
      [{ name := "anthropic-beta", value := utf8 anthropicBetaHeader, lower := by decide }]
    else []) ++
    [{ name := "x-request-id", value := utf8 reqId, lower := by decide }]

/-- `upstream_url.trim_end_matches('/')`. -/
def upstreamBase : String :=
  String.ofList (server.config.upstreamUrl.toList.reverse.dropWhile (· = '/')).reverse

/-- The answer is what the upstream returns, `none` where the request fails. -/
def forwardToUpstream (parts : Parts) (body : List UInt8) (reqId : String)
    (answer : Option HttpResponse) : Relay :=
  if !parts.pathAndQuery.startsWith "/" then
    { sent := none, outcome := .error (.body ("Invalid path: " ++ parts.pathAndQuery)) }
  else
    { sent := some
        { method := parts.method
          uri := server.upstreamBase ++ parts.pathAndQuery
          headers := server.upstreamHeaders parts reqId
          body := body }
      outcome :=
        match answer with
        | none => .error .upstream
        | some upstream =>
            .ok { status := upstream.status
                  headers := upstream.headers.filter (safeHeaders.contains ·.name)
                  body := upstream.body } }

def handleMessagesRequest (parts : Parts) (body : List UInt8) (reqId : String)
    (answer : Option HttpResponse) : Option Relay :=
  match readBody body server.config.maxRequestBodySize with
  | .error e => some { sent := none, outcome := .error e }
  | .ok bytes =>
      match server.fromSlice bytes with
      | .error e => some
          { sent := none, outcome := .error (.body ("Failed to parse request JSON: " ++ e)) }
      | .ok value => (server.transformed value).map fun modified =>
          server.forwardToUpstream parts (server.toVec modified) reqId answer

def badGatewayResponse (message : String) : HttpResponse where
  status := 502
  headers := [{ name := "content-type", value := utf8 "application/json", lower := by decide }]
  body := server.toVec (.object [("error", .string message)])

def forwardRequest (parts : Parts) (body : List UInt8) (reqId : String)
    (answer : Option HttpResponse) : Option UpstreamRequest × HttpResponse :=
  match readBody body server.config.maxRequestBodySize with
  | .error _ => (none, server.badGatewayResponse "Proxy error")
  | .ok bytes => (server.forwardToUpstream parts bytes reqId answer).orElse
      (server.badGatewayResponse "Upstream error")

end ProxyServer

def shouldIntercept (parts : Parts) : Bool :=
  parts.method = "POST" &&
    (parts.path = "/v1/messages" || parts.path = "/v1/chat/completions" || parts.path = "/chat")

namespace ProxyServer

variable (server : ProxyServer)

/-- The end of `handle_request`, past the checks and the endpoints that answer without the
upstream: what was sent, and what the client gets. -/
def routeRequest (parts : Parts) (body : List UInt8) (reqId : String)
    (answer : Option HttpResponse) : Option (Option UpstreamRequest × HttpResponse) :=
  if shouldIntercept parts then
    (server.handleMessagesRequest parts body reqId answer).map
      (·.orElse (server.badGatewayResponse "Proxy error"))
  else some (server.forwardRequest parts body reqId answer)

end ProxyServer

end Proxy
end CleanCtx
