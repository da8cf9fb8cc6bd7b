import CleanCtx.Proxy.FilterLoss
import CleanCtx.Proxy.Relay

/-!
The framing of a relay. Headers pass both filters with the values they had, so a
content length is right on the far side exactly when it was right for the bytes
that go there: the upstream's own body, and the serialization of the transformed
request.
-/
namespace CleanCtx
namespace Proxy

def contentLength (value : List UInt8) : Option Nat :=
  let digits := value.map fun b => Char.ofNat b.toNat
  if digits = [] ∨ digits.all Char.isDigit = false then none
  else some (Nat.ofDigitChars 10 digits 0)

def FramedBody (headers : List Header) (body : List UInt8) : Prop :=
  ∀ header ∈ headers, header.name = "content-length" →
    contentLength header.value = some body.length

def contentEncodings (headers : List Header) : List (List UInt8) :=
  (headers.filter (·.name = "content-encoding")).map (·.value)

/-- What is returned is framed, and says nothing of its encoding or what the upstream said of the
same bytes. -/
structure Describes (upstream returned : HttpResponse) : Prop where
  length : FramedBody returned.headers returned.body
  encoding : contentEncodings returned.headers ≠ [] →
    contentEncodings returned.headers = contentEncodings upstream.headers ∧
      returned.body = upstream.body

section Headers

variable {headers : List Header} {body : List UInt8} {p : String → Bool}

theorem framed_append {headers' : List Header} :
    FramedBody (headers ++ headers') body ↔ FramedBody headers body ∧ FramedBody headers' body :=
  List.forall_mem_append

theorem framed_filter (hp : p "content-length" = true) :
    FramedBody (headers.filter (p ·.name)) body ↔ FramedBody headers body := by
  constructor
  · intro h header hmem hname
    have hpass : p header.name = true := by rw [hname, hp]
    exact h header (List.mem_filter.mpr ⟨hmem, hpass⟩) hname
  · intro h header hmem hname
    exact h header (List.mem_filter.mp hmem).1 hname

theorem contentEncodings_filter (hp : p "content-encoding" = false) :
    contentEncodings (headers.filter (p ·.name)) = [] := by
  rw [contentEncodings, List.map_eq_nil_iff, List.filter_filter, List.filter_eq_nil_iff]
  intro header _ hboth
  simp only [Bool.and_eq_true, decide_eq_true_eq] at hboth
  rw [hboth.1, hp] at hboth
  exact Bool.false_ne_true hboth.2

/-- For a client that framed its own body, the framing lasts as long as the length does. -/
theorem FramedBody.iff_length {body' : List UInt8} (h : FramedBody headers body)
    (hpresent : ∃ header ∈ headers, header.name = "content-length") :
    FramedBody headers body' ↔ body'.length = body.length := by
  constructor
  · intro h'
    obtain ⟨header, hmem, hname⟩ := hpresent
    have heq := (h' header hmem hname).symm.trans (h header hmem hname)
    exact Option.some.inj heq
  · intro hlength header hmem hname
    rw [hlength]
    exact h header hmem hname

end Headers

namespace ProxyServer

variable (server : ProxyServer)

/-- The body of an intercepted request as it is sent on, if it is. -/
def rewrittenBody (body : List UInt8) : Option (List UInt8) :=
  match readBody body server.config.maxRequestBodySize with
  | .error _ => none
  | .ok bytes =>
      match server.fromSlice bytes with
      | .error _ => none
      | .ok value => (server.transformed value).map server.toVec

def KeepsLength (body : List UInt8) : Prop :=
  ∀ bytes, server.rewrittenBody body = some bytes → bytes.length = body.length

def relayedBody (parts : Parts) (body : List UInt8) : Option (List UInt8) :=
  if parts.pathAndQuery.startsWith "/" then
    if shouldIntercept parts then server.rewrittenBody body
    else (readBody body server.config.maxRequestBodySize).toOption
  else none

/-- The relay of an intercepted request and of any response is well framed. -/
def WellRelayed (parts : Parts) (body : List UInt8) (reqId : String)
    (answer : Option HttpResponse) : Prop :=
  ∀ sent returned, server.routeRequest parts body reqId answer = some (some sent, returned) →
    (shouldIntercept parts = true → FramedBody sent.headers sent.body) ∧
      ∀ upstream, answer = some upstream → Describes upstream returned

section Route

variable {server} {parts : Parts} {body bytes : List UInt8} {reqId : String}
  {answer : Option HttpResponse}

def sentRequest (server : ProxyServer) (parts : Parts) (bytes : List UInt8) (reqId : String) :
    UpstreamRequest where
  method := parts.method
  uri := server.upstreamBase ++ parts.pathAndQuery
  headers := server.upstreamHeaders parts reqId
  body := bytes

def returnedResponse (upstream : HttpResponse) : HttpResponse where
  status := upstream.status
  headers := upstream.headers.filter (safeHeaders.contains ·.name)
  body := upstream.body

theorem framed_upstreamHeaders :
    FramedBody (server.upstreamHeaders parts reqId) bytes ↔ FramedBody parts.headers bytes := by
  have hbeta : ∀ headers : List Header, (∀ header ∈ headers, header.name ≠ "content-length") →
      FramedBody headers bytes :=
    fun headers hother header hmem hname => absurd hname (hother header hmem)
  unfold upstreamHeaders
  rw [framed_append, framed_append, framed_filter (by decide)]
  constructor
  · exact fun h => h.1.1
  · intro h
    refine ⟨⟨h, hbeta _ ?_⟩, hbeta _ ?_⟩
    · split
      · intro header hmem
        rw [List.mem_singleton.mp hmem]
        decide
      · exact fun _ hmem => (nomatch hmem)
    · intro header hmem
      rw [List.mem_singleton.mp hmem]
      simp

theorem framed_returnedResponse {upstream : HttpResponse} :
    FramedBody (returnedResponse upstream).headers (returnedResponse upstream).body ↔
      FramedBody upstream.headers upstream.body :=
  framed_filter (p := (safeHeaders.contains ·)) (by decide)

theorem contentEncodings_returnedResponse {upstream : HttpResponse} :
    contentEncodings (returnedResponse upstream).headers = [] :=
  contentEncodings_filter (p := (safeHeaders.contains ·)) (by decide)

theorem forwardToUpstream_of_path (h : parts.pathAndQuery.startsWith "/" = true) :
    server.forwardToUpstream parts bytes reqId answer =
      { sent := some (server.sentRequest parts bytes reqId)
        outcome := (answer.map (Except.ok ∘ returnedResponse)).getD (.error .upstream) } := by
  unfold forwardToUpstream
  rw [h]
  cases answer <;> rfl

theorem forwardToUpstream_of_no_path (h : parts.pathAndQuery.startsWith "/" = false) :
    (server.forwardToUpstream parts bytes reqId answer).sent = none := by
  unfold forwardToUpstream
  rw [h]
  rfl

theorem orElse_sent (relay : Relay) (failure : HttpResponse) :
    (relay.orElse failure).1 = relay.sent := by
  unfold Relay.orElse
  split <;> rfl

/-- The handler of an intercepted request sends the rewritten body, or nothing. -/
theorem handleMessagesRequest_cases (server : ProxyServer) (parts : Parts) (body : List UInt8)
    (reqId : String) (answer : Option HttpResponse) :
    (∃ bytes, server.rewrittenBody body = some bytes ∧
      server.handleMessagesRequest parts body reqId answer =
        some (server.forwardToUpstream parts bytes reqId answer)) ∨
    (server.rewrittenBody body = none ∧
      ∀ relay, server.handleMessagesRequest parts body reqId answer = some relay →
        relay.sent = none) := by
  unfold rewrittenBody handleMessagesRequest
  cases readBody body server.config.maxRequestBodySize with
  | error e =>
      refine .inr ⟨rfl, ?_⟩
      rintro _ ⟨⟩
      rfl
  | ok bytes =>
      simp only
      cases server.fromSlice bytes with
      | error e =>
          refine .inr ⟨rfl, ?_⟩
          rintro _ ⟨⟩
          rfl
      | ok value =>
          simp only
          cases server.transformed value with
          | none =>
              refine .inr ⟨rfl, ?_⟩
              rintro _ ⟨⟩
          | some modified => exact .inl ⟨server.toVec modified, rfl, rfl⟩

variable (reqId answer) in
/-- What goes upstream is the relayed body under the filtered headers, and the client gets the
response with its bytes. -/
theorem routeRequest_of_relayed (h : server.relayedBody parts body = some bytes) :
    ∃ returned, server.routeRequest parts body reqId answer =
        some (some (server.sentRequest parts bytes reqId), returned) ∧
      ∀ upstream, answer = some upstream → returned = returnedResponse upstream := by
  have hforwarded : ∀ failure, parts.pathAndQuery.startsWith "/" = true →
      ∃ returned, (server.forwardToUpstream parts bytes reqId answer).orElse failure =
          (some (server.sentRequest parts bytes reqId), returned) ∧
        ∀ upstream, answer = some upstream → returned = returnedResponse upstream := by
    intro failure hpath
    rw [forwardToUpstream_of_path hpath]
    cases answer with
    | none => exact ⟨failure, rfl, nofun⟩
    | some upstream =>
        refine ⟨returnedResponse upstream, rfl, ?_⟩
        intro _ heq
        rw [Option.some.inj heq]
  unfold relayedBody at h
  unfold routeRequest
  split at h
  case isFalse => cases h
  rename_i hpath
  split at h
  · rename_i hintercept
    obtain ⟨returned, heq, hreturned⟩ := hforwarded (server.badGatewayResponse "Proxy error") hpath
    rw [if_pos hintercept]
    refine ⟨returned, ?_, hreturned⟩
    obtain ⟨bytes', hbytes, hhandled⟩ | ⟨hnone, -⟩ :=
      server.handleMessagesRequest_cases parts body reqId answer
    · rw [hbytes] at h
      cases h
      rw [hhandled, Option.map_some, heq]
    · rw [hnone] at h
      cases h
  · rename_i hforward
    obtain ⟨returned, heq, hreturned⟩ :=
      hforwarded (server.badGatewayResponse "Upstream error") hpath
    rw [if_neg hforward]
    refine ⟨returned, ?_, hreturned⟩
    unfold forwardRequest
    cases hread : readBody body server.config.maxRequestBodySize with
    | error e =>
        rw [hread] at h
        cases h
    | ok read =>
        rw [hread] at h
        cases h
        rw [← heq]

theorem relayedBody_of_sent {sent : UpstreamRequest} {returned : HttpResponse}
    (h : server.routeRequest parts body reqId answer = some (some sent, returned)) :
    ∃ bytes, server.relayedBody parts body = some bytes := by
  unfold relayedBody
  unfold routeRequest at h
  cases hpath : parts.pathAndQuery.startsWith "/" with
  | false =>
      exfalso
      split at h
      · obtain ⟨relay, hrelay, heq⟩ := Option.map_eq_some_iff.mp h
        have hsent : relay.sent = some sent := by rw [← orElse_sent relay, heq]
        obtain ⟨bytes, -, hhandled⟩ | ⟨-, hnothing⟩ :=
          server.handleMessagesRequest_cases parts body reqId answer
        · rw [hhandled] at hrelay
          rw [← Option.some.inj hrelay, forwardToUpstream_of_no_path hpath] at hsent
          cases hsent
        · rw [hnothing relay hrelay] at hsent
          cases hsent
      · have hsent := congrArg Prod.fst (Option.some.inj h)
        unfold forwardRequest at hsent
        split at hsent
        · cases hsent
        · rw [orElse_sent, forwardToUpstream_of_no_path hpath] at hsent
          cases hsent
  | true =>
      rw [if_pos rfl]
      split at h
      · rename_i hintercept
        rw [if_pos hintercept]
        obtain ⟨relay, hrelay, heq⟩ := Option.map_eq_some_iff.mp h
        have hsent : relay.sent = some sent := by rw [← orElse_sent relay, heq]
        obtain ⟨bytes, hbytes, -⟩ | ⟨-, hnothing⟩ :=
          server.handleMessagesRequest_cases parts body reqId answer
        · exact ⟨bytes, hbytes⟩
        · rw [hnothing relay hrelay] at hsent
          cases hsent
      · rename_i hforward
        rw [if_neg hforward]
        unfold forwardRequest at h
        cases hread : readBody body server.config.maxRequestBodySize with
        | error e =>
            rw [hread] at h
            cases h
        | ok read => exact ⟨read, rfl⟩

/-- A relay is well framed exactly when the client's content lengths are right for the bytes that
go on and the upstream's are right for its own. -/
theorem wellRelayed_iff_framed (server : ProxyServer) (parts : Parts) (body : List UInt8) (reqId : String)
    (answer : Option HttpResponse) :
    server.WellRelayed parts body reqId answer ↔
      ∀ bytes, server.relayedBody parts body = some bytes →
        (shouldIntercept parts = true → FramedBody parts.headers bytes) ∧
          ∀ upstream, answer = some upstream → FramedBody upstream.headers upstream.body := by
  constructor
  · intro h bytes hbytes
    obtain ⟨returned, hroute, hreturned⟩ := routeRequest_of_relayed reqId answer
      hbytes
    obtain ⟨hsent, hanswer⟩ := h _ _ hroute
    refine ⟨fun hintercept => framed_upstreamHeaders.mp (hsent hintercept), ?_⟩
    intro upstream hupstream
    have hdescribes := hanswer upstream hupstream
    rw [hreturned upstream hupstream] at hdescribes
    exact framed_returnedResponse.mp hdescribes.length
  · intro h sent returned hroute
    obtain ⟨bytes, hbytes⟩ := relayedBody_of_sent hroute
    obtain ⟨returned', hroute', hreturned⟩ := routeRequest_of_relayed reqId answer
      hbytes
    rw [hroute] at hroute'
    cases hroute'
    obtain ⟨hrequest, hanswer⟩ := h bytes hbytes
    refine ⟨fun hintercept => framed_upstreamHeaders.mpr (hrequest hintercept), ?_⟩
    intro upstream hupstream
    rw [hreturned upstream hupstream]
    exact ⟨framed_returnedResponse.mpr (hanswer upstream hupstream),
      fun hpresent => absurd contentEncodings_returnedResponse hpresent⟩

end Route

/-- Where the client framed its body, what goes upstream is framed as long as the rewriting keeps
the length. -/
theorem framed_sentRequest_iff_length (server : ProxyServer) {parts : Parts}
    {body bytes : List UInt8} (reqId : String) (hclient : FramedBody parts.headers body)
    (hpresent : ∃ header ∈ parts.headers, header.name = "content-length") :
    FramedBody (server.sentRequest parts bytes reqId).headers bytes ↔ bytes.length = body.length :=
  framed_upstreamHeaders.trans (hclient.iff_length hpresent)

/-- What goes on of a request that its client framed is framed when it says nothing of its length,
or when the rewriting keeps it. -/
theorem framed_relayed_iff {server : ProxyServer} {parts : Parts} {body : List UInt8}
    (hclient : FramedBody parts.headers body) (hintercept : shouldIntercept parts = true) :
    (∀ bytes, server.relayedBody parts body = some bytes → FramedBody parts.headers bytes) ↔
      (parts.pathAndQuery.startsWith "/" = true →
        (∀ header ∈ parts.headers, header.name ≠ "content-length") ∨ server.KeepsLength body) := by
  have hrelayed : ∀ bytes, server.relayedBody parts body = some bytes ↔
      parts.pathAndQuery.startsWith "/" = true ∧ server.rewrittenBody body = some bytes := by
    intro bytes
    unfold relayedBody
    rw [hintercept, if_pos rfl, Option.ite_none_right_eq_some]
  simp only [hrelayed]
  by_cases hpresent : ∃ header ∈ parts.headers, header.name = "content-length"
  · have hnamed : ¬∀ header ∈ parts.headers, header.name ≠ "content-length" := by
      obtain ⟨header, hmem, hname⟩ := hpresent
      exact fun hnone => hnone header hmem hname
    constructor
    · exact fun h hpath => .inr fun bytes hbytes =>
        (hclient.iff_length hpresent).mp (h bytes ⟨hpath, hbytes⟩)
    · intro h bytes hbytes
      exact (hclient.iff_length hpresent).mpr ((h hbytes.1).resolve_left hnamed bytes hbytes.2)
  · have hnone : ∀ header ∈ parts.headers, header.name ≠ "content-length" :=
      fun header hmem hname => hpresent ⟨header, hmem, hname⟩
    constructor
    · exact fun _ _ => .inl hnone
    · exact fun _ bytes _ header hmem hname => absurd hname (hnone header hmem)

/-- The claim of a relay: it is well framed exactly when the content lengths of the client are right
for what goes on, and those of the upstream for its own body. For a client that framed its body the
former means that it names no length, or that the rewriting keeps it. -/
theorem wellRelayed_iff (server : ProxyServer) (parts : Parts) (body : List UInt8) (reqId : String)
    (answer : Option HttpResponse) :
    (server.WellRelayed parts body reqId answer ↔
      ∀ bytes, server.relayedBody parts body = some bytes →
        (shouldIntercept parts = true → FramedBody parts.headers bytes) ∧
          ∀ upstream, answer = some upstream → FramedBody upstream.headers upstream.body) ∧
      (FramedBody parts.headers body →
        (server.WellRelayed parts body reqId answer ↔
          (shouldIntercept parts = true → parts.pathAndQuery.startsWith "/" = true →
            (∀ header ∈ parts.headers, header.name ≠ "content-length") ∨
              server.KeepsLength body) ∧
            ((server.relayedBody parts body).isSome = true →
              ∀ upstream, answer = some upstream →
                FramedBody upstream.headers upstream.body))) := by
  refine ⟨server.wellRelayed_iff_framed parts body reqId answer, fun hclient => ?_⟩
  rw [server.wellRelayed_iff_framed parts body reqId answer]
  constructor
  · intro h
    refine ⟨fun hintercept => ?_, fun hsome => ?_⟩
    · exact (framed_relayed_iff hclient hintercept).mp fun bytes hbytes =>
        (h bytes hbytes).1 hintercept
    · obtain ⟨bytes, hbytes⟩ := Option.isSome_iff_exists.mp hsome
      exact (h bytes hbytes).2
  · rintro ⟨hrequest, hanswer⟩ bytes hbytes
    refine ⟨fun hintercept => ?_, hanswer (by rw [hbytes]; rfl)⟩
    exact (framed_relayed_iff hclient hintercept).mpr (hrequest hintercept) bytes hbytes

/-- A request that is not intercepted keeps its bytes, and with them its framing. -/
theorem relayedBody_of_not_intercepted {server : ProxyServer} {parts : Parts}
    {body bytes : List UInt8} (hforward : shouldIntercept parts = false)
    (h : server.relayedBody parts body = some bytes) : bytes = body := by
  unfold relayedBody at h
  split at h
  · rw [hforward, if_neg Bool.false_ne_true] at h
    unfold readBody at h
    split at h
    · cases h
    · exact (Option.some.inj h).symm
  · cases h

/-- Under the default configuration nothing is transformed: a body is only serialized again. -/
theorem rewrittenBody_of_standard {server : ProxyServer} {body : List UInt8} {value : Value}
    (hconfig : server.config = ProxyConfig.standard) (hparse : server.fromSlice body = .ok value)
    (hsize : body.length ≤ 10 * 1024 * 1024) :
    server.rewrittenBody body = some (server.toVec value) := by
  have htransformed : server.transformed value = some value := by
    unfold transformed pipelineConfig
    rw [hconfig]
    rfl
  have hread : readBody body server.config.maxRequestBodySize = .ok body := by
    rw [hconfig]
    exact if_neg (Nat.not_lt.mpr hsize)
  unfold rewrittenBody
  rw [hread]
  simp only [hparse, htransformed, Option.map_some]

/-- The default configuration, with a parser that knows one text: a request as a client writes it
that leaves a blank after a colon. -/
def oneBody : ProxyServer where
  config := ProxyConfig.standard
  filterRegistry := { builtin := [], community := [], overrides := [] }
  engine := FilterEngine.literal
  fromSlice bytes :=
    if bytes = utf8 "\x7b\"messages\": []\x7d" then .ok (.object [("messages", .array [])])
    else .error "expected value"
  toVec value :=
    match value with
    | .object [("messages", .array [])] => utf8 "\x7b\"messages\":[]\x7d"
    | _ => utf8 "null"

def oneRequest : Parts where
  method := "POST"
  path := "/v1/messages"
  pathAndQuery := "/v1/messages"
  headers := [{ name := "content-length", value := utf8 "16", lower := by decide }]

/-- The blank is gone from what goes upstream, and the length of the client with it. -/
theorem not_wellRelayed_oneRequest :
    ¬ oneBody.WellRelayed oneRequest (utf8 "\x7b\"messages\": []\x7d") "000000" none := by
  intro h
  have hrelayed : oneBody.relayedBody oneRequest (utf8 "\x7b\"messages\": []\x7d") =
      some (utf8 "\x7b\"messages\":[]\x7d") := by decide +kernel
  obtain ⟨returned, hroute, -⟩ := routeRequest_of_relayed "000000" none hrelayed
  have hframed := framed_upstreamHeaders.mp ((h _ _ hroute).1 (by decide +kernel))
  have hlength := hframed _ (List.mem_singleton.mpr rfl) rfl
  revert hlength
  decide +kernel

end ProxyServer
end Proxy
end CleanCtx
