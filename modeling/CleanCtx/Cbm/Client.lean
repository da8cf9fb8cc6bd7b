import CleanCtx.Library.Json
import CleanCtx.Library.Text

/-!
The client of the graph process (`cbm/client.rs`).

Requests go down one pipe and lines come back up another. What the process and the
clock do during one attempt is an `Attempt`: whether the process was gone, the lines
it answers with, how many of them arrive in time and how the wait ends otherwise.
A killed process takes no further request. Parsing a text is a parameter.
-/
namespace CleanCtx
namespace Cbm

abbrev Text := List Char

inductive CbmError
  | launchError (msg : String)
  | connectionLost (msg : String)
  | rpcError (code : Int) (message : String)
  | timeout (duration : Nat)
  | parseError (msg : String)
  | toolError (tool message : String)

inductive CbmStatus
  | available
  | degraded (reason : String)
  | unavailable

def maxResponseBytes : Nat := 4 * 1024 * 1024

/-- `stdin` holds the requests written, the newest first; `stdoutRx` the lines not yet received. -/
structure CbmClient where
  running : Bool
  stdin : List Value
  stdoutRx : List Text
  requestId : UInt64
  status : CbmStatus
  timeout : Nat
  consecutiveFailures : Nat
  degradedSince : Option Nat
  maxConsecutiveFailures : Nat
  circuitCooldownSecs : Nat

def tryLaunch (timeout maxConsecutiveFailures circuitCooldownSecs : Nat) : CbmClient where
  running := true
  stdin := []
  stdoutRx := []
  requestId := 1
  status := .available
  timeout
  consecutiveFailures := 0
  degradedSince := none
  maxConsecutiveFailures
  circuitCooldownSecs

inductive Ending
  | deadline
  | exited (msg : String)

/-- What the process and the clock do while one request is made. -/
structure Attempt where
  crashed : Bool
  writeFault : String
  reply : List Text
  arrivals : Nat
  ending : Ending
  finished : Nat

def isRetryable : CbmError → Bool
  | .connectionLost _ | .timeout _ => true
  | .rpcError code _ => code = -32603
  | _ => false

/-- `as_i64`. -/
def asI64 : Value → Option Int
  | .number (.posInt n) => if n.toNat < 2 ^ 63 then some n.toNat else none
  | .number (.negInt n) => some n.toInt
  | _ => none

section

variable (parse : Text → Option Value)

def contentText (result : Value) : String :=
  ((((result.get "content").bind Value.asArray).bind List.head?).bind fun block =>
    (block.get "text").bind Value.asStr).getD ""

def checkSoftError (toolName : String) (result : Value) : Except CbmError Unit :=
  match result.get "isError" with
  | some (.bool true) =>
      let text := contentText result
      let trimmed := String.ofList (trim text.toList)
      let message := ((parse text.toList).bind fun v => (v.get "error").bind Value.asStr).getD
        (if trimmed = "" then "unknown CBM tool failure" else trimmed)
      .error (.toolError toolName message)
  | _ => .ok ()

def circuitAllows (now : Nat) (client : CbmClient) : Bool × CbmClient :=
  if client.consecutiveFailures < client.maxConsecutiveFailures then (true, client)
  else match client.degradedSince with
    | some since =>
        if client.circuitCooldownSecs ≤ now - since then
          (true, { client with
            consecutiveFailures := 0, degradedSince := none, status := .available })
        else (false, client)
    | none => (false, client)

def recordSuccess (client : CbmClient) : CbmClient :=
  { client with
    consecutiveFailures := 0
    degradedSince := none
    status := match client.status with
      | .degraded _ => .available
      | status => status }

def recordFailure (now : Nat) (client : CbmClient) : CbmClient :=
  if client.maxConsecutiveFailures ≤ client.consecutiveFailures + 1 then
    { client with
      consecutiveFailures := client.consecutiveFailures + 1
      status := .degraded
        ("circuit_open_after_" ++ toString client.maxConsecutiveFailures ++ "_failures")
      degradedSince := some now }
  else { client with consecutiveFailures := client.consecutiveFailures + 1 }

def request (id : UInt64) (toolName : String) (args : Value) : Value :=
  .object [("jsonrpc", .string "2.0"), ("id", .ofU64 id), ("method", .string "tools/call"),
    ("params", .object [("name", .string toolName), ("arguments", args)])]

inductive Received
  | complete (buf : Text)
  | oversized
  | waiting

/-- The receive loop, over the lines that arrive before the wait ends. -/
def receive : Nat → List Text → Text → Received × List Text
  | 0, lines, _ => (.waiting, lines)
  | _ + 1, [], _ => (.waiting, [])
  | arrivals + 1, line :: lines, buf =>
      if maxResponseBytes < byteLen (buf ++ line) then (.oversized, lines)
      else if (parse (trim (buf ++ line))).isSome then (.complete (buf ++ line), lines)
      else receive arrivals lines (buf ++ line)

def sendAndReceiveRaw (toolName : String) (args : Value) (attempt : Attempt)
    (client : CbmClient) : Except CbmError Text × CbmClient :=
  if client.running && !attempt.crashed then
    let sent := { client with
      requestId := client.requestId + 1
      stdin := request client.requestId toolName args :: client.stdin }
    match receive parse attempt.arrivals (client.stdoutRx ++ attempt.reply) [] with
    | (.complete buf, lines) => (.ok buf, { sent with stdoutRx := lines })
    | (.oversized, lines) =>
        (.error (.connectionLost ("response >" ++ toString maxResponseBytes ++ "B")),
          { sent with stdoutRx := lines, status := .degraded "oversized" })
    | (.waiting, lines) =>
        match attempt.ending with
        | .deadline =>
            (.error (.timeout client.timeout),
              { sent with stdoutRx := lines, running := false, status := .degraded "timeout" })
        | .exited msg =>
            (.error (.connectionLost msg),
              { sent with stdoutRx := lines, running := false, status := .degraded "exited" })
  else
    (.error (.connectionLost attempt.writeFault), { client with
      requestId := client.requestId + 1
      running := false
      status := .degraded ("flush: " ++ attempt.writeFault) })

/-- A raw call returns the text it received, the other one the result it found in it. -/
inductive Payload
  | raw (text : Text)
  | parsed (result : Value)

def callToolRawInner (toolName : String) (args : Value) (attempt : Attempt)
    (client : CbmClient) : Except CbmError Payload × CbmClient :=
  match sendAndReceiveRaw parse toolName args attempt client with
  | (.ok buf, client) => (.ok (.raw buf), client)
  | (.error e, client) => (.error e, client)

/-- What `call_tool_inner` makes of a received text. -/
def readResult (toolName : String) (buf : Text) : Except CbmError Value :=
  match parse (trim buf) with
  | none => .error (.parseError "response")
  | some resp =>
      match resp.get "error" with
      | some error => .error (.rpcError (((error.get "code").bind asI64).getD (-1))
          (((error.get "message").bind Value.asStr).getD "unknown"))
      | none =>
          match resp.get "result" with
          | none => .error (.parseError "missing result")
          | some result => (checkSoftError parse toolName result).map fun _ => result

def callToolInner (toolName : String) (args : Value) (attempt : Attempt)
    (client : CbmClient) : Except CbmError Payload × CbmClient :=
  match sendAndReceiveRaw parse toolName args attempt client with
  | (.ok buf, client) => ((readResult parse toolName buf).map .parsed, client)
  | (.error e, client) => (.error e, client)

/-- One call of `call_tool_raw` or `call_tool`, with what happens during its attempts. -/
structure Call where
  isRaw : Bool
  toolName : String
  args : Value
  started : Nat
  first : Attempt
  second : Attempt

/-- One attempt of a call, raw or not. -/
def Call.attempt (call : Call) (attempt : Attempt) (client : CbmClient) :
    Except CbmError Payload × CbmClient :=
  if call.isRaw then callToolRawInner parse call.toolName call.args attempt client
  else callToolInner parse call.toolName call.args attempt client

/-- The retry loop that both entry points share, with its one retry. -/
def Call.run (call : Call) (client : CbmClient) : Except CbmError Payload × CbmClient :=
  match circuitAllows call.started client with
  | (false, client) => (.error (.connectionLost "circuit breaker open"), client)
  | (true, client) =>
      match call.attempt parse call.first client with
      | (.ok payload, client) => (.ok payload, recordSuccess client)
      | (.error e, client) =>
          if isRetryable e then
            match call.attempt parse call.second (recordFailure call.first.finished client) with
            | (.ok payload, client) => (.ok payload, recordSuccess client)
            | (.error e, client) => (.error e, recordFailure call.second.finished client)
          else (.error e, recordFailure call.first.finished client)

end

end Cbm
end CleanCtx
