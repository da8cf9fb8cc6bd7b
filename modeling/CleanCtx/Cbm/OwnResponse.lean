import CleanCtx.Cbm.Client

/-!
Whose response a call returns. Between two attempts the running process has nothing but
white space left to read: a response is read to its end, and a wait that ends early ends
the process too. Only a response cut off by the size bound leaves text behind, and the
next attempt takes what it finds there for its own response.
-/
namespace CleanCtx
namespace Cbm

/-- No complete text goes on after an object has been closed, white space apart. -/
def EndsAtObject (parse : Text → Option Value) : Prop :=
  ∀ s t members, parse (trim (s ++ t)) = some (.object members) →
    (parse (trim s)).isSome = true → Blank t

def Carries (parse : Text → Option Value) (id : UInt64) (reply : List Text) : Prop :=
  ∃ members, parse (trim reply.flatten) = some (.object members) ∧
    (Value.object members).get "id" = some (.ofU64 id)

/-- The size bound is hit while part of a response is still to come. -/
def Attempt.CutOff (attempt : Attempt) (client : CbmClient) : Prop :=
  client.running = true ∧ attempt.crashed = false ∧ ∃ arrived rest,
    client.stdoutRx ++ attempt.reply = arrived ++ rest ∧ arrived.length ≤ attempt.arrivals ∧
      maxResponseBytes < byteLen arrived.flatten ∧ ¬Blank rest.flatten

namespace Call

def between (parse : Text → Option Value) (call : Call) (client : CbmClient) : CbmClient :=
  recordFailure call.first.finished
    (call.attempt parse call.first (circuitAllows call.started client).2).2

def Served (parse : Text → Option Value) (call : Call) (client : CbmClient) : Prop :=
  Carries parse client.requestId call.first.reply ∧
    Carries parse (client.requestId + 1) call.second.reply

/-- One of the attempts of the call is cut off. -/
def CutOff (parse : Text → Option Value) (call : Call) (client : CbmClient) : Prop :=
  call.first.CutOff client ∨ call.second.CutOff (call.between parse client)

end Call

/-- The payload is that of the response, up to white space around a raw text. -/
def PayloadOf (parse : Text → Option Value) (reply : List Text) (response : Value) :
    Payload → Prop
  | .raw text => trim text = trim reply.flatten
  | .parsed result => parse (trim reply.flatten) = some response ∧
      response.get "result" = some result

/-- The payload comes from the response with the identifier of the request written last. -/
def OwnResponse (parse : Text → Option Value) (call : Call) (after : CbmClient)
    (payload : Payload) : Prop :=
  ∃ sent reply response, after.stdin.head? = some sent ∧
    reply ∈ [call.first.reply, call.second.reply] ∧
    parse (trim reply.flatten) = some response ∧ response.get "id" = sent.get "id" ∧
    PayloadOf parse reply response payload

def Quiet (client : CbmClient) : Prop := client.running = true → Blank client.stdoutRx.flatten

/-- What one attempt may do to a quiet client: it stays quiet, and a received text is that of the
reply to the request it wrote. -/
structure Answered (reply : List Text) (before after : CbmClient)
    (received : Option Text) : Prop where
  quiet : Quiet after
  requestId : after.requestId = before.requestId + 1
  own : ∀ text, received = some text → trim text = trim reply.flatten ∧
    ∃ toolName args, after.stdin.head? = some (request before.requestId toolName args)

theorem exists_of_map_ok {ε α β : Type} {f : α → β} {x : Except ε α} {b : β}
    (h : x.map f = .ok b) : ∃ a, x = .ok a ∧ f a = b := by
  cases x with
  | error e => cases h
  | ok a => exact ⟨a, rfl, Except.ok.inj h⟩

/-- A result that is read is the `result` member of the response. -/
theorem get_result_of_readResult {parse : Text → Option Value} {toolName : String} {buf : Text}
    {response result : Value} (hresponse : parse (trim buf) = some response)
    (h : readResult parse toolName buf = .ok result) : response.get "result" = some result := by
  simp only [readResult, hresponse] at h
  split at h
  · cases h
  · split at h
    · cases h
    · rename_i found hfound
      obtain ⟨_, _, hsame⟩ := exists_of_map_ok h
      rw [hfound, hsame]

section

variable {parse : Text → Option Value} (hparse : EndsAtObject parse)
include hparse

/-- The receive loop: what it consumed and what it leaves make up the lines it started from. -/
theorem receive_spec (arrivals : Nat) (lines arrived : List Text) {members : List (String × Value)}
    (htext : parse (trim (arrived ++ lines).flatten) = some (.object members))
    (hcut : ∀ more rest, lines = more ++ rest → more.length ≤ arrivals →
      maxResponseBytes < byteLen (arrived ++ more).flatten → Blank rest.flatten) :
    match receive parse arrivals lines arrived.flatten with
    | (.complete buf, rest) => trim buf = trim (arrived ++ lines).flatten ∧ Blank rest.flatten
    | (.oversized, rest) => Blank rest.flatten
    | (.waiting, _) => True := by
  induction arrivals generalizing lines arrived with
  | zero => exact trivial
  | succ arrivals ih =>
      cases lines with
      | nil => exact trivial
      | cons line lines =>
          have hbuf : arrived.flatten ++ line = (arrived ++ [line]).flatten := by simp
          have hall : arrived ++ line :: lines = (arrived ++ [line]) ++ lines := by simp
          rw [hall] at htext
          simp only [receive, hbuf]
          by_cases hsize : maxResponseBytes < byteLen (arrived ++ [line]).flatten
          · rw [if_pos hsize]
            exact hcut [line] lines rfl (by simp) hsize
          · rw [if_neg hsize]
            by_cases hcomplete : (parse (trim (arrived ++ [line]).flatten)).isSome = true
            · rw [if_pos hcomplete]
              rw [List.flatten_append] at htext
              have hrest := hparse _ _ members htext hcomplete
              refine ⟨?_, hrest⟩
              rw [hall, @List.flatten_append _ (arrived ++ [line]), trim_append_blank _ hrest]
            · rw [if_neg hcomplete, hall]
              refine ih lines _ htext fun more rest hmore hlength hbig => ?_
              refine hcut (line :: more) rest (by rw [hmore]; rfl) ?_ ?_
              · simpa using hlength
              · simpa using hbig

/-- An attempt on a quiet client that is not cut off. -/
theorem sendAndReceiveRaw_answered {client : CbmClient} {attempt : Attempt} (toolName : String)
    (args : Value) (hquiet : Quiet client) (hcarries : Carries parse client.requestId attempt.reply)
    (hcut : ¬attempt.CutOff client) :
    Answered attempt.reply client (sendAndReceiveRaw parse toolName args attempt client).2
      (sendAndReceiveRaw parse toolName args attempt client).1.toOption := by
  obtain ⟨members, htext, -⟩ := hcarries
  rw [sendAndReceiveRaw]
  by_cases hwritten : (client.running && !attempt.crashed) = true
  · rw [if_pos hwritten]
    obtain ⟨hrunning, hcrashed⟩ := Bool.and_eq_true_iff.mp hwritten
    have hstart : trim (client.stdoutRx ++ attempt.reply).flatten = trim attempt.reply.flatten := by
      rw [List.flatten_append, trim_blank_append (hquiet hrunning)]
    have hkept : ∀ more rest, client.stdoutRx ++ attempt.reply = more ++ rest →
        more.length ≤ attempt.arrivals → maxResponseBytes < byteLen ([] ++ more).flatten →
        Blank rest.flatten := by
      intro more rest hmore hlength hbig
      refine Classical.byContradiction fun hblank => hcut ⟨hrunning, ?_, more, rest, hmore,
        hlength, hbig, hblank⟩
      simpa using hcrashed
    have hspec := receive_spec hparse attempt.arrivals (client.stdoutRx ++ attempt.reply) []
      (by rw [List.nil_append, hstart, htext]) hkept
    simp only [List.flatten_nil, List.nil_append] at hspec
    split
    · rename_i buf lines hreceive
      rw [hreceive] at hspec
      refine ⟨fun _ => hspec.2, rfl, fun text hown => ?_⟩
      cases hown
      exact ⟨hspec.1.trans hstart, toolName, args, rfl⟩
    · rename_i lines hreceive
      rw [hreceive] at hspec
      exact ⟨fun _ => hspec, rfl, fun _ hown => by cases hown⟩
    · split
      · exact ⟨fun hrun => (by cases hrun), rfl, fun _ hown => by cases hown⟩
      · exact ⟨fun hrun => (by cases hrun), rfl, fun _ hown => by cases hown⟩
  · rw [if_neg hwritten]
    exact ⟨fun hrun => (by cases hrun), rfl, fun _ hown => by cases hown⟩

/-- What a call's attempt returns, it takes from the reply to the request it wrote. -/
theorem attempt_own {client : CbmClient} (call : Call) {attempt : Attempt} (hquiet : Quiet client)
    (hcarries : Carries parse client.requestId attempt.reply) (hcut : ¬attempt.CutOff client) :
    Quiet (call.attempt parse attempt client).2 ∧
      (call.attempt parse attempt client).2.requestId = client.requestId + 1 ∧
      ∀ payload, (call.attempt parse attempt client).1 = .ok payload → ∃ sent response,
        (call.attempt parse attempt client).2.stdin.head? = some sent ∧
        parse (trim attempt.reply.flatten) = some response ∧
        response.get "id" = sent.get "id" ∧ PayloadOf parse attempt.reply response payload := by
  have hanswered := sendAndReceiveRaw_answered hparse call.toolName call.args hquiet hcarries hcut
  obtain ⟨members, hresponse, hid⟩ := hcarries
  rw [Call.attempt]
  split
  · rw [callToolRawInner]
    split
    · rename_i buf after hreceived
      rw [hreceived] at hanswered
      obtain ⟨htext, toolName, args, hsent⟩ := hanswered.own buf rfl
      refine ⟨hanswered.quiet, hanswered.requestId, fun payload hpayload => ?_⟩
      cases hpayload
      exact ⟨_, _, hsent, hresponse, hid, htext⟩
    · rename_i e after hreceived
      rw [hreceived] at hanswered
      exact ⟨hanswered.quiet, hanswered.requestId, fun _ h => nomatch h⟩
  · rw [callToolInner]
    split
    · rename_i buf after hreceived
      rw [hreceived] at hanswered
      obtain ⟨htext, toolName, args, hsent⟩ := hanswered.own buf rfl
      refine ⟨hanswered.quiet, hanswered.requestId, fun payload hpayload => ?_⟩
      obtain ⟨result, hresult, rfl⟩ := exists_of_map_ok hpayload
      refine ⟨_, _, hsent, hresponse, hid, hresponse, ?_⟩
      exact get_result_of_readResult (htext ▸ hresponse) hresult
    · rename_i e after hreceived
      rw [hreceived] at hanswered
      exact ⟨hanswered.quiet, hanswered.requestId, fun _ h => nomatch h⟩

end

/-- The circuit breaker's bookkeeping leaves the pipes and the request counter alone. -/
structure SameTransport (before after : CbmClient) : Prop where
  running : after.running = before.running
  stdin : after.stdin = before.stdin
  stdoutRx : after.stdoutRx = before.stdoutRx
  requestId : after.requestId = before.requestId

theorem sameTransport_circuitAllows (now : Nat) (client : CbmClient) :
    SameTransport client (circuitAllows now client).2 := by
  rw [circuitAllows]
  split
  · exact ⟨rfl, rfl, rfl, rfl⟩
  · split
    · split <;> exact ⟨rfl, rfl, rfl, rfl⟩
    · exact ⟨rfl, rfl, rfl, rfl⟩

theorem sameTransport_recordSuccess (client : CbmClient) :
    SameTransport client (recordSuccess client) := ⟨rfl, rfl, rfl, rfl⟩

theorem sameTransport_recordFailure (now : Nat) (client : CbmClient) :
    SameTransport client (recordFailure now client) := by
  rw [recordFailure]
  split <;> exact ⟨rfl, rfl, rfl, rfl⟩

theorem Quiet.of_sameTransport {before after : CbmClient} (hquiet : Quiet before)
    (h : SameTransport before after) : Quiet after := by
  rw [Quiet, h.running, h.stdoutRx]
  exact hquiet

/-- One call on a quiet client: it stays quiet, and a payload is that of the call's own response. -/
theorem run_own {parse : Text → Option Value} (hparse : EndsAtObject parse) {client : CbmClient}
    (call : Call) (hquiet : Quiet client) (hserved : call.Served parse client)
    (hcut : ¬call.CutOff parse client) :
    Quiet (call.run parse client).2 ∧ ∀ payload, (call.run parse client).1 = .ok payload →
      OwnResponse parse call (call.run parse client).2 payload := by
  have hallowed := sameTransport_circuitAllows call.started client
  have hfirst := attempt_own hparse call (hquiet.of_sameTransport hallowed)
    (hallowed.requestId ▸ hserved.1) fun h => hcut (Or.inl (by
      simpa only [Attempt.CutOff, hallowed.running, hallowed.stdoutRx] using h))
  have hfailed := sameTransport_recordFailure call.first.finished
    (call.attempt parse call.first (circuitAllows call.started client).2).2
  have hid : (call.between parse client).requestId = client.requestId + 1 := by
    rw [Call.between, hfailed.requestId, hfirst.2.1, hallowed.requestId]
  have hbetween : Quiet (call.between parse client) := hfirst.1.of_sameTransport hfailed
  have hsecond := attempt_own hparse call hbetween (hid ▸ hserved.2) fun h => hcut (Or.inr h)
  rw [Call.between] at hsecond hbetween
  rw [Call.run]
  split
  · rename_i blocked hcircuit
    rw [hcircuit] at hallowed
    exact ⟨hquiet.of_sameTransport hallowed, fun _ h => nomatch h⟩
  · rename_i allowed hcircuit
    simp only [hcircuit] at hfirst hsecond hbetween
    split
    · rename_i payload after hreturned
      rw [hreturned] at hfirst
      refine ⟨hfirst.1.of_sameTransport (sameTransport_recordSuccess after), fun _ h => ?_⟩
      obtain ⟨sent, response, hsent, hown⟩ := hfirst.2.2 payload rfl
      cases h
      exact ⟨sent, _, response, hsent, List.mem_cons_self, hown⟩
    · rename_i e after hreturned
      rw [hreturned] at hsecond hbetween hfirst
      split
      · split
        · rename_i payload last hretried
          rw [hretried] at hsecond
          refine ⟨hsecond.1.of_sameTransport (sameTransport_recordSuccess last), fun _ h => ?_⟩
          obtain ⟨sent, response, hsent, hown⟩ := hsecond.2.2 payload rfl
          cases h
          exact ⟨sent, _, response, hsent, List.mem_cons_of_mem _ List.mem_cons_self, hown⟩
        · rename_i e' last hretried
          rw [hretried] at hsecond
          exact ⟨hsecond.1.of_sameTransport (sameTransport_recordFailure _ last),
            fun _ h => nomatch h⟩
      · exact ⟨hbetween, fun _ h => nomatch h⟩

/-- The clients that calls lead to, when the server answers and no response is cut off. -/
inductive Reachable (parse : Text → Option Value) : CbmClient → Prop
  | launch (timeout maxConsecutiveFailures circuitCooldownSecs : Nat) :
      Reachable parse (tryLaunch timeout maxConsecutiveFailures circuitCooldownSecs)
  | call {client : CbmClient} (call : Call) (hclient : Reachable parse client)
      (hserved : call.Served parse client) (hcut : ¬call.CutOff parse client) :
      Reachable parse (call.run parse client).2

theorem quiet_of_reachable {parse : Text → Option Value} (hparse : EndsAtObject parse)
    {client : CbmClient} (h : Reachable parse client) : Quiet client := by
  induction h with
  | launch => exact fun _ _ hc => nomatch hc
  | call call _ hserved hcut ih => exact (run_own hparse call ih hserved hcut).1

/-- In every run, a call whose attempts are not cut off returns nothing but its own response. -/
theorem call_own {parse : Text → Option Value} (hparse : EndsAtObject parse) {client : CbmClient}
    (hclient : Reachable parse client) (call : Call) (hserved : call.Served parse client)
    (hcut : ¬call.CutOff parse client) {payload : Payload}
    (hok : (call.run parse client).1 = .ok payload) :
    OwnResponse parse call (call.run parse client).2 payload :=
  (run_own hparse call (quiet_of_reachable hparse hclient) hserved hcut).2 payload hok

theorem mem_of_lookup {table : List (Text × Value)} {s : Text} {v : Value}
    (h : table.lookup s = some v) : (s, v) ∈ table := by
  obtain ⟨before, after, rfl, -⟩ := List.lookup_eq_some_iff.mp h
  exact List.mem_append_right _ List.mem_cons_self

/-- A finite parser, for texts none of which is the beginning of another one. -/
theorem endsAtObject_lookup {table : List (Text × Value)} (hne : ∀ entry ∈ table, entry.1 ≠ [])
    (hbegins : ∀ a ∈ table, ∀ b ∈ table, a.1 <+: b.1 → a.1 = b.1) :
    EndsAtObject fun s => table.lookup s := by
  intro s t members hall hstart
  obtain ⟨v, hv⟩ := Option.isSome_iff_exists.mp hstart
  have hmem := mem_of_lookup hv
  have hblank : ¬Blank s := by
    intro h
    refine hne _ hmem ?_
    rw [trim, dropWhile_of_blank h]
    rfl
  obtain ⟨rest, htrim, hrest⟩ := trim_append hblank t
  have heq := hbegins _ hmem _ (mem_of_lookup hall) ⟨rest, htrim.symm⟩
  refine hrest ((List.append_right_inj (trim s)).mp ?_)
  rw [← htrim, List.append_nil]
  exact heq.symm

theorem not_cutOff_of_small {attempt : Attempt} {client : CbmClient}
    (h : byteLen (client.stdoutRx ++ attempt.reply).flatten ≤ maxResponseBytes) :
    ¬attempt.CutOff client := by
  rintro ⟨-, -, arrived, rest, hlines, -, hbig, -⟩
  rw [hlines, List.flatten_append, byteLen_append] at h
  omega

def answer (id : Char) : Text :=
  ['\x7b', '"', 'i', 'd', '"', ':', id, ',', '"', 'r', 'e', 's', 'u', 'l', 't', '"', ':', '7', '\x7d']

def answerValue (id : UInt64) : Value :=
  .object [("id", .ofU64 id), ("result", .number (.posInt 7))]

/-- Two calls could be answered; one is made, and its response comes on two lines. -/
def sampleCall : Call where
  isRaw := false
  toolName := "get_architecture"
  args := .null
  started := 0
  first := ⟨false, "", ["\x7b\"id\":1,\n".toList, "\"result\":7\x7d\n".toList], 2, .deadline, 1⟩
  second := ⟨false, "", [answer '2'], 1, .deadline, 2⟩

def sampleParse : Text → Option Value := fun s =>
  [("\x7b\"id\":1,\n\"result\":7\x7d".toList, answerValue 1), (answer '2', answerValue 2)].lookup s

theorem call_own_sample : EndsAtObject sampleParse ∧
    sampleCall.Served sampleParse (tryLaunch 10 3 60) ∧
    (sampleCall.run sampleParse (tryLaunch 10 3 60)).1.toOption.isSome = true ∧
    ∀ payload, (sampleCall.run sampleParse (tryLaunch 10 3 60)).1 = .ok payload →
      OwnResponse sampleParse sampleCall (sampleCall.run sampleParse (tryLaunch 10 3 60)).2 payload := by
  have hparse : EndsAtObject sampleParse := endsAtObject_lookup (by decide) (by decide)
  have hserved : sampleCall.Served sampleParse (tryLaunch 10 3 60) :=
    ⟨⟨_, rfl, rfl⟩, ⟨_, rfl, rfl⟩⟩
  have hrest : (sampleCall.between sampleParse (tryLaunch 10 3 60)).stdoutRx = [] := rfl
  have hcut : ¬sampleCall.CutOff sampleParse (tryLaunch 10 3 60) := by
    rintro (h | h)
    · exact not_cutOff_of_small (by decide) h
    · exact not_cutOff_of_small (by rw [hrest]; decide) h
  exact ⟨hparse, hserved, rfl, fun payload hok =>
    call_own hparse (.launch 10 3 60) sampleCall hserved hcut hok⟩

section

variable (filler : Text)

/-- The inside of a response that carries a long text and goes on after it. -/
def oversizedBody : Text :=
  ['"', 'i', 'd', '"', ':', '1', ',', '"', 'r', 'e', 's', 'u', 'l', 't', '"', ':', '[', '"'] ++
    (filler ++ ['"', ',', '\n', '0', '\n', ']'])

/-- Its lines; the second one is a complete value. -/
def oversizedReply : List Text :=
  [['\x7b', '"', 'i', 'd', '"', ':', '1', ',', '"', 'r', 'e', 's', 'u', 'l', 't', '"', ':', '[',
      '"'] ++ (filler ++ ['"', ',', '\n']), ['0', '\n'], [']', '\x7d', '\n']]

def oversizedValue : Value :=
  .object [("id", .ofU64 1),
    ("result", .array [.string (String.ofList filler), .number (.posInt 0)])]

def oversizedParse : Text → Option Value := fun s =>
  [('\x7b' :: (oversizedBody filler ++ ['\x7d']), oversizedValue filler),
    (answer '2', answerValue 2), (['0'], .number (.posInt 0))].lookup s

def oversizedCall : Call where
  isRaw := true
  toolName := "get_architecture"
  args := .null
  started := 0
  first := ⟨false, "", oversizedReply filler, 3, .deadline, 1⟩
  second := ⟨false, "", [answer '2'], 3, .deadline, 2⟩

theorem trim_oversizedReply :
    trim (oversizedReply filler).flatten = '\x7b' :: (oversizedBody filler ++ ['\x7d']) := by
  have hflat : (oversizedReply filler).flatten =
      ('\x7b' :: (oversizedBody filler ++ ['\x7d'])) ++ ['\n'] := by
    simp [oversizedReply, oversizedBody]
  have hnewline : Blank ['\n'] := by simp [Blank, isWhiteSpace]
  have hopen : isWhiteSpace '\x7b' = false := by decide
  have hclose : isWhiteSpace '\x7d' = false := by decide
  rw [hflat, trim_append_blank _ hnewline, trim_tight hopen hclose]

theorem endsAtObject_oversizedParse : EndsAtObject (oversizedParse filler) := by
  refine endsAtObject_lookup ?_ ?_
  · simp [answer]
  · simp [answer, oversizedBody, List.cons_prefix_cons]

theorem served_oversizedCall :
    (oversizedCall filler).Served (oversizedParse filler) (tryLaunch 10 3 60) := by
  refine ⟨⟨[("id", .ofU64 1), ("result", .array [.string (String.ofList filler),
    .number (.posInt 0)])], ?_, rfl⟩, ⟨[("id", .ofU64 2), ("result", .number (.posInt 7))], ?_, rfl⟩⟩
  · rw [oversizedCall, trim_oversizedReply, oversizedParse, List.lookup_cons_self]
    rfl
  · have hne : (answer '2' == '\x7b' :: (oversizedBody filler ++ ['\x7d'])) = false := by
      simp [answer, oversizedBody]
    simp only [oversizedCall, oversizedParse, List.lookup_cons, List.flatten_singleton]
    rw [show trim (answer '2') = answer '2' from rfl, hne, beq_self_eq_true]
    rfl

/-- Past the bound, the retry returns the second line as the response to its own request. -/
theorem run_oversizedCall (hlarge : maxResponseBytes < byteLen filler) :
    ((oversizedCall filler).run (oversizedParse filler) (tryLaunch 10 3 60)).1 =
      .ok (.raw ['0', '\n']) := by
  have hbig : ∀ before after, maxResponseBytes < byteLen (before ++ (filler ++ after)) := by
    intro before after
    rw [byteLen_append, byteLen_append]
    omega
  have hzero : oversizedParse filler ['0'] = some (.number (.posInt 0)) := by
    simp [oversizedParse, List.lookup_cons, answer]
  have hfirst : receive (oversizedParse filler) 3 (oversizedReply filler) [] =
      (.oversized, [['0', '\n'], [']', '\x7d', '\n']]) := by
    rw [oversizedReply, receive, List.nil_append, if_pos (hbig _ _)]
  have hsecond : receive (oversizedParse filler) 3
      [['0', '\n'], [']', '\x7d', '\n'], answer '2'] [] =
        (.complete ['0', '\n'], [[']', '\x7d', '\n'], answer '2']) := by
    have htrim : trim ['0', '\n'] = ['0'] := rfl
    rw [receive, List.nil_append, if_neg (by decide), htrim, hzero]
    rfl
  have hallowed : circuitAllows 0 (tryLaunch 10 3 60) = (true, tryLaunch 10 3 60) := rfl
  simp only [Call.run, Call.attempt, callToolRawInner, oversizedCall, hallowed]
  simp only [sendAndReceiveRaw, tryLaunch, List.nil_append, hfirst]
  simp [recordFailure, isRetryable, hsecond]

theorem not_own_oversizedCall (after : CbmClient) :
    ¬OwnResponse (oversizedParse filler) (oversizedCall filler) after (.raw ['0', '\n']) := by
  rintro ⟨sent, reply, response, -, hreply, -, -, hown⟩
  have htrim : trim ['0', '\n'] = ['0'] := rfl
  rw [PayloadOf, htrim] at hown
  rcases List.mem_cons.mp hreply with rfl | hreply
  · rw [oversizedCall, trim_oversizedReply] at hown
    cases hown
  · rw [List.mem_singleton.mp hreply] at hown
    cases hown

end

theorem byteLen_replicate (n : Nat) : byteLen (List.replicate n 'a') = n := by
  rw [byteLen, List.map_replicate, List.sum_replicate_nat]
  exact Nat.mul_one n

/-- A server that answers every request, and a call that returns a line of another response. -/
theorem not_call_own_oversized : ∃ parse, EndsAtObject parse ∧ ∃ call : Call,
    call.Served parse (tryLaunch 10 3 60) ∧ ∃ payload,
      (call.run parse (tryLaunch 10 3 60)).1 = .ok payload ∧
      ¬OwnResponse parse call (call.run parse (tryLaunch 10 3 60)).2 payload := by
  let filler := List.replicate (maxResponseBytes + 1) 'a'
  have hlarge : maxResponseBytes < byteLen filler := by
    rw [byteLen_replicate]
    exact Nat.lt_succ_self _
  exact ⟨oversizedParse filler, endsAtObject_oversizedParse filler, oversizedCall filler,
    served_oversizedCall filler, _, run_oversizedCall filler hlarge, not_own_oversizedCall filler _⟩

end Cbm
end CleanCtx
