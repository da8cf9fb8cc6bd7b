import CleanCtx.Proxy.Transform
import CleanCtx.Proxy.Scrubbing

/-!
Which message texts scrubbing reaches. The texts an API format defines are listed
from the body alone, each with the place it stands in. The walk reaches the text
of a block and the `content` of a block the adapter takes for a tool result; a
message whose content is a plain string it passes over.
-/
namespace CleanCtx
namespace Proxy

open Value

/-- Where a format puts a text. A place inside a tool result says whether the adapter takes the
block for one. -/
inductive TextPlace
  | message
  | block
  | result (recognised : Bool)
  | resultBlock (recognised : Bool)
  | output
  deriving DecidableEq, Repr

structure MessageText where
  place : TextPlace
  text : String
  deriving DecidableEq, Repr

/-- The places of the walk. -/
def TextPlace.visited : TextPlace → Bool
  | message | output => false
  | block => true
  | result recognised | resultBlock recognised => recognised

def textAt (place : TextPlace) (key : String) (holder : Value) : List MessageText :=
  (member holder key).asStr.toList.map fun text => { place, text }

namespace PlatformAdapter

/-- The tool results of the format: for the generic one also what only says that it is one. -/
def definesResult (adapter : PlatformAdapter) (holder : Value) : Bool :=
  match adapter with
  | generic => genericHasToolIndicator holder || generic.isToolResult holder
  | adapter => adapter.isToolResult holder

/-- The further fields `GenericAdapter` reads the text of a tool result from. -/
def outputTexts (adapter : PlatformAdapter) (holder : Value) : List MessageText :=
  if adapter = generic ∧ adapter.definesResult holder then
    textAt .output "output" holder ++ textAt .output "result" holder
  else []

def blockTexts (adapter : PlatformAdapter) (block : Value) : List MessageText :=
  textAt .block "text" block ++
    (if adapter.definesResult block then
      textAt (.result (adapter.isToolResult block)) "content" block ++
        (itemsOf (member block "content")).flatMap
          (textAt (.resultBlock (adapter.isToolResult block)) "text")
    else []) ++ adapter.outputTexts block

/-- The texts of a message: a plain string, as every role-tool message may have, or blocks. -/
def textsOfMessage (adapter : PlatformAdapter) (message : Value) : List MessageText :=
  textAt .message "content" message ++
    (itemsOf (member message "content")).flatMap adapter.blockTexts ++ adapter.outputTexts message

def messageTexts (adapter : PlatformAdapter) (body : Value) : List MessageText :=
  (itemsOf (member body "messages")).flatMap adapter.textsOfMessage

end PlatformAdapter

/-- The bodies scrubbing does not panic on. -/
def Walkable (body : Value) : Prop :=
  body.Indexable ∧ ∀ message ∈ itemsOf (member body "messages"), message.Indexable

def Quiet (rewrite : String → Rewrite) : Prop :=
  ∀ text, (rewrite text).matched = 0 → (rewrite text).content = text

def rewriteString (rewrite : String → Rewrite) : Value → Value
  | .string text => .string (rewrite text).content
  | value => value

def MessageText.after (rewrite : String → Rewrite) (t : MessageText) : MessageText :=
  if t.place.visited then { t with text := (rewrite t.text).content } else t

section Texts

variable {rewrite : String → Rewrite} {adapter : PlatformAdapter} {block block' message message' : Value}
  {place : TextPlace} {key : String} {n : Nat}

@[simp] theorem isString_rewriteString (value : Value) :
    isString (rewriteString rewrite value) = isString value := by
  cases value <;> rfl

@[simp] theorem asArray_rewriteString (value : Value) :
    (rewriteString rewrite value).asArray = value.asArray := by
  cases value <;> rfl

/-- A member is left alone, or its string is replaced by what the rewriting makes of it. -/
theorem rewriteText_cases (h : rewriteText rewrite key block = some (block', n)) :
    (block' = block ∧ n = 0 ∧
        ∀ text, (member block key).asStr = some text → (rewrite text).matched = 0) ∨
      ∃ text, (member block key).asStr = some text ∧ n = (rewrite text).matched ∧
        atKey key (fun _ => some (.string (rewrite text).content, ())) block = some (block', ()) := by
  rw [rewriteText] at h
  cases hvalue : (member block key).asStr with
  | none =>
      simp only [hvalue, Option.some.injEq, Prod.mk.injEq] at h
      exact .inl ⟨h.1.symm, h.2.symm, nofun⟩
  | some text =>
      simp only [hvalue] at h
      by_cases hmatch : 0 < (rewrite text).matched
      · rw [if_pos hmatch] at h
        obtain ⟨⟨result, _⟩, hplace, heq⟩ := Option.map_eq_some_iff.mp h
        cases heq
        exact .inr ⟨text, rfl, rfl, hplace⟩
      · rw [if_neg hmatch] at h
        cases h
        exact .inl ⟨rfl, rfl, fun other hother => by cases hother; omega⟩

/-- Rewriting one member rewrites its string and keeps every other member. -/
theorem member_rewriteText (hquiet : Quiet rewrite)
    (h : rewriteText rewrite key block = some (block', n)) :
    member block' key = rewriteString rewrite (member block key) ∧
      ∀ other, other ≠ key → member block' other = member block other := by
  obtain ⟨rfl, -, hnone⟩ | ⟨text, htext, -, hplace⟩ := rewriteText_cases h
  · refine ⟨?_, fun _ _ => rfl⟩
    cases hvalue : member block' key with
    | string text => rw [rewriteString, hquiet text (hnone text (by rw [hvalue]; rfl))]
    | null | bool | number | array | object => rfl
  · obtain ⟨v, hget, hv, -⟩ := get_atKey hplace
    cases hv
    refine ⟨?_, fun other hother => member_atKey_of_ne hplace hother⟩
    cases hvalue : member block key with
    | string s =>
        rw [hvalue, asStr_string, Option.some.injEq] at htext
        rw [member, hget, rewriteString, htext]
        rfl
    | null | bool | number | array | object => simp [hvalue, asStr] at htext

theorem isSome_rewriteText (rewrite : String → Rewrite) (key : String) (block : Value) :
    (rewriteText rewrite key block).isSome := by
  rw [rewriteText]
  cases hvalue : (member block key).asStr with
  | none => rfl
  | some text =>
      have hget : (block.get key).isSome := by
        cases hget : block.get key with
        | none => simp [member, hget, asStr] at hvalue
        | some => rfl
      by_cases hmatch : 0 < (rewrite text).matched
      · simp only [if_pos hmatch, Option.isSome_map]
        exact isSome_atKey.mpr ⟨indexable_of_get hget, rfl⟩
      · simp only [if_neg hmatch, Option.isSome_some]

theorem textAt_congr (h : member block' key = member block key) :
    textAt place key block' = textAt place key block := by
  rw [textAt, textAt, h]

/-- A visited text is rewritten, in its place. -/
theorem textAt_visited (rewrite : String → Rewrite) (hplace : place.visited = true)
    (h : (member block' key).asStr = (rewriteString rewrite (member block key)).asStr) :
    textAt place key block' = (textAt place key block).map (MessageText.after rewrite) := by
  rw [textAt, textAt, h]
  cases member block key <;> simp [rewriteString, asStr, MessageText.after, hplace]

theorem map_after_textAt (place : TextPlace) (hplace : place.visited = false) :
    (textAt place key block).map (MessageText.after rewrite) = textAt place key block := by
  rw [textAt, List.map_map]
  exact List.map_congr_left fun text _ => if_neg (by simp [hplace])

/-- What decides whether a value is a tool result: its role, its type and which fields are strings. -/
structure SameKind (block block' : Value) : Prop where
  role : member block' "role" = member block "role"
  type : member block' "type" = member block "type"
  content : isString (member block' "content") = isString (member block "content")
  output : member block' "output" = member block "output"
  result : member block' "result" = member block "result"

namespace SameKind

theorem isToolResult (h : SameKind block block') :
    adapter.isToolResult block' = adapter.isToolResult block := by
  cases adapter <;>
    simp only [PlatformAdapter.isToolResult, PlatformAdapter.genericHasContent,
      PlatformAdapter.genericNotUser, PlatformAdapter.genericHasToolIndicator, hasText, h.role,
      h.type, h.content, h.output, h.result]

theorem definesResult (h : SameKind block block') :
    adapter.definesResult block' = adapter.definesResult block := by
  cases adapter <;>
    simp only [PlatformAdapter.definesResult, PlatformAdapter.genericHasToolIndicator, hasText,
      h.isToolResult, h.role, h.type]

/-- The further fields are not visited. -/
theorem outputTexts (h : SameKind block block') (rewrite : String → Rewrite) :
    adapter.outputTexts block' =
      (adapter.outputTexts block).map (MessageText.after rewrite) := by
  rw [PlatformAdapter.outputTexts, PlatformAdapter.outputTexts, h.definesResult]
  by_cases hdefines : adapter = .generic ∧ adapter.definesResult block = true
  · rw [if_pos hdefines, if_pos hdefines, List.map_append, map_after_textAt _ rfl,
      map_after_textAt _ rfl, textAt_congr h.output, textAt_congr h.result]
  · rw [if_neg hdefines, if_neg hdefines, List.map_nil]

theorem trans {block'' : Value} (h : SameKind block block') (h' : SameKind block' block'') :
    SameKind block block'' :=
  ⟨h'.role.trans h.role, h'.type.trans h.type, h'.content.trans h.content,
    h'.output.trans h.output, h'.result.trans h.result⟩

end SameKind

/-- Another member than these is changed. -/
theorem sameKind_of_members (hcontent : isString (member block' "content") =
    isString (member block "content"))
    (hothers : ∀ other, other ≠ "text" → other ≠ "content" →
      member block' other = member block other) : SameKind block block' where
  role := hothers _ (by decide) (by decide)
  type := hothers _ (by decide) (by decide)
  content := hcontent
  output := hothers _ (by decide) (by decide)
  result := hothers _ (by decide) (by decide)

/-- An array walked item by item is no string before or after, and every reading follows. -/
theorem walked_array {value value' : Value} {step : Value → Option (Value × Nat)}
    (texts : Value → List MessageText)
    (hstep : ∀ x x' n, step x = some (x', n) → texts x' = (texts x).map (MessageText.after rewrite))
    (h : onArray 0 (forEach step) value = some (value', n)) :
    value'.asStr = value.asStr ∧ (itemsOf value').flatMap texts =
      ((itemsOf value).flatMap texts).map (MessageText.after rewrite) := by
  obtain ⟨items, items', rfl, rfl, hitems⟩ | ⟨harray, rfl, -⟩ := onArray_cases h
  · exact ⟨rfl, flatMap_forEach hstep hitems⟩
  · rw [itemsOf, harray]
    exact ⟨rfl, rfl⟩

theorem textAt_rewriteText (hquiet : Quiet rewrite) (place : TextPlace) (hplace : place.visited = true)
    (h : rewriteText rewrite key block = some (block', n)) :
    textAt place key block' = (textAt place key block).map (MessageText.after rewrite) :=
  textAt_visited rewrite hplace (congrArg asStr (member_rewriteText hquiet h).1)

/-- The walk rewrites what it visits of a block and keeps what the block is. -/
theorem blockTexts_rewriteBlock (hquiet : Quiet rewrite)
    (h : rewriteBlock rewrite adapter block = some (block', n)) :
    adapter.blockTexts block' =
      (adapter.blockTexts block).map (MessageText.after rewrite) := by
  obtain ⟨⟨block₁, own⟩, htext, h⟩ := Option.bind_eq_some_iff.mp h
  obtain ⟨htext₁, hothers₁⟩ := member_rewriteText hquiet htext
  have hcontent₁ := hothers₁ "content" (by decide)
  have hkind₁ : SameKind block block₁ :=
    sameKind_of_members (by rw [hcontent₁]) fun other hother _ => hothers₁ other hother
  have hown := textAt_rewriteText hquiet .block rfl htext
  simp only [PlatformAdapter.blockTexts, List.map_append]
  cases htool : adapter.isToolResult block₁ with
  | false =>
      simp only [htool, Bool.false_eq_true, if_false] at h
      cases h
      rw [hkind₁.isToolResult] at htool
      rw [hown, hkind₁.outputTexts rewrite, hkind₁.definesResult,
        hkind₁.isToolResult, htool, textAt_congr hcontent₁, hcontent₁]
      congr 2
      by_cases hdefines : adapter.definesResult block = true
      · simp only [if_pos hdefines, List.map_append, map_after_textAt (.result false) rfl]
        rw [List.map_flatMap]
        simp only [map_after_textAt (.resultBlock false) rfl]
      · simp only [if_neg hdefines, List.map_nil]
  | true =>
      simp only [htool, if_true] at h
      obtain ⟨⟨block₂, count⟩, hstring, h⟩ := Option.bind_eq_some_iff.mp h
      obtain ⟨⟨block₃, inner⟩, hblocks, h⟩ := Option.bind_eq_some_iff.mp h
      cases h
      obtain ⟨hcontent₂, hothers₂⟩ := member_rewriteText hquiet hstring
      obtain ⟨value, hget, hwalk, -⟩ := get_atKey hblocks
      have hcontent₃ : member block₃ "content" = value := by rw [member, hget]; rfl
      obtain ⟨hstr, hinner⟩ := walked_array (textAt (.resultBlock true) "text")
        (fun _ _ _ => textAt_rewriteText hquiet _ rfl) hwalk
      rw [hcontent₂, hcontent₁] at hstr hinner
      have hkind : SameKind block block₃ := by
        refine sameKind_of_members ?_ fun other hother hne => ?_
        · rw [hcontent₃, isString, hstr]
          exact isString_rewriteString _
        · rw [member_atKey_of_ne hblocks hne, hothers₂ other hne, hothers₁ other hother]
      have hitems : itemsOf (rewriteString rewrite (member block "content")) =
          itemsOf (member block "content") := by
        rw [itemsOf, asArray_rewriteString, itemsOf]
      have htext₃ : member block₃ "text" = member block₁ "text" := by
        rw [member_atKey_of_ne hblocks (by decide), hothers₂ "text" (by decide)]
      rw [hkind₁.isToolResult] at htool
      rw [textAt_congr htext₃, hown, hkind.outputTexts rewrite, hkind.definesResult,
        hkind.isToolResult, htool, hcontent₃, hinner, hitems,
        textAt_visited rewrite (show (TextPlace.result true).visited = true from rfl) (hcontent₃ ▸ hstr)]
      congr 2
      by_cases hdefines : adapter.definesResult block = true
      · simp only [if_pos hdefines, List.map_append]
      · simp only [if_neg hdefines, List.map_nil]

theorem textsOfMessage_rewrite (hquiet : Quiet rewrite)
    (h : atKey "content" (onArray 0 (forEach (rewriteBlock rewrite adapter))) message =
      some (message', n)) :
    adapter.textsOfMessage message' =
      (adapter.textsOfMessage message).map (MessageText.after rewrite) := by
  obtain ⟨value, hget, hwalk, -⟩ := get_atKey h
  have hcontent : member message' "content" = value := by rw [member, hget]; rfl
  obtain ⟨hstr, hblocks⟩ := walked_array _ (fun _ _ _ => blockTexts_rewriteBlock hquiet) hwalk
  have hkind : SameKind message message' :=
    sameKind_of_members (by rw [hcontent, isString, isString, hstr])
      fun other _ hne => member_atKey_of_ne h hne
  have hplain : textAt .message "content" message' = textAt .message "content" message := by
    rw [textAt, textAt, hcontent, hstr]
  simp only [PlatformAdapter.textsOfMessage, List.map_append, map_after_textAt .message rfl]
  rw [hplain, hcontent, hblocks, hkind.outputTexts rewrite]

/-- After the walk the visited texts of a body are rewritten and the others are as they were. -/
theorem messageTexts_rewriteTexts {body body' : Value} (hquiet : Quiet rewrite)
    (h : rewriteTexts rewrite adapter body = some (body', n)) :
    adapter.messageTexts body' =
      (adapter.messageTexts body).map (MessageText.after rewrite) := by
  obtain ⟨value, hget, hwalk, -⟩ := get_atKey h
  have hmessages : member body' "messages" = value := by rw [member, hget]; rfl
  rw [PlatformAdapter.messageTexts, PlatformAdapter.messageTexts, hmessages]
  exact (walked_array _ (fun _ _ _ => textsOfMessage_rewrite hquiet) hwalk).2

end Texts

section Totality

variable {rewrite : String → Rewrite} {adapter : PlatformAdapter} {block : Value}

theorem indexable_of_hasText {key text : String} (h : hasText block key text = true) :
    block.Indexable := by
  have hstr : (member block key).asStr = some text := of_decide_eq_true h
  exact indexable_of_asStr (by rw [hstr]; rfl)

theorem indexable_of_isToolResult (h : adapter.isToolResult block = true) : block.Indexable := by
  cases adapter with
  | anthropic | openai => exact indexable_of_hasText h
  | generic =>
      have hcontent := (Bool.and_eq_true_iff.mp h).1
      simp only [PlatformAdapter.genericHasContent, Bool.or_eq_true] at hcontent
      obtain (hcontent | hcontent) | hcontent := hcontent <;> exact indexable_of_asStr hcontent

theorem indexable_of_rewriteText {key : String} {block' : Value} {n : Nat}
    (h : rewriteText rewrite key block = some (block', n)) (hblock : block.Indexable) :
    block'.Indexable := by
  obtain ⟨rfl, -⟩ | ⟨text, -, -, hplace⟩ := rewriteText_cases h
  · exact hblock
  · obtain ⟨v, hget, -⟩ := get_atKey hplace
    exact indexable_of_get (by rw [hget]; rfl)

theorem isSome_rewriteBlock : (rewriteBlock rewrite adapter block).isSome := by
  obtain ⟨⟨block₁, own⟩, htext⟩ := Option.isSome_iff_exists.mp
    (isSome_rewriteText rewrite "text" block)
  rw [rewriteBlock, htext]
  cases htool : adapter.isToolResult block₁ with
  | false => simp [htool]
  | true =>
      obtain ⟨⟨block₂, count⟩, hstring⟩ := Option.isSome_iff_exists.mp
        (isSome_rewriteText rewrite "content" block₁)
      have hindexable : block₂.Indexable := indexable_of_rewriteText hstring
        (indexable_of_isToolResult htool)
      have hblocks :
          (atKey "content" (onArray 0 (forEach (rewriteText rewrite "text"))) block₂).isSome :=
        isSome_atKey.mpr ⟨hindexable, isSome_onArray.mpr fun _ _ =>
          isSome_forEach.mpr fun _ _ => isSome_rewriteText ..⟩
      obtain ⟨result, hblocks⟩ := Option.isSome_iff_exists.mp hblocks
      simp [htool, hstring, hblocks]

/-- The walk panics exactly on a body or a message that is neither an object nor `null`. -/
theorem isSome_rewriteTexts (rewrite : String → Rewrite) (adapter : PlatformAdapter) {body : Value} :
    (rewriteTexts rewrite adapter body).isSome ↔ Walkable body := by
  rw [rewriteTexts, isSome_atKey, isSome_onArray, Walkable, itemsOf]
  refine and_congr_right fun _ => ?_
  cases (member body "messages").asArray with
  | none => simp
  | some messages =>
      simp only [Option.some.injEq, forall_eq', isSome_forEach, isSome_atKey, isSome_onArray,
        isSome_rewriteBlock, implies_true, and_true, Option.getD_some]

end Totality

namespace RegexEngine

variable {engine : RegexEngine} {adapter : PlatformAdapter} {body : Value}

/-- The rule loop reports a hit for every change it makes. -/
theorem content_foldl_of_hits_nil {rules : List ScrubRule} {state : ScrubResult}
    (h : (rules.foldl engine.applyRule state).hits = []) :
    state.hits = [] ∧ (rules.foldl engine.applyRule state).content = state.content := by
  induction rules generalizing state with
  | nil => exact ⟨h, rfl⟩
  | cons rule rules ih =>
      obtain ⟨hstep, hcontent⟩ := ih h
      have hbefore : state.hits = [] := List.prefix_nil.mp (hstep ▸ hits_applyRule state)
      refine ⟨hbefore, hcontent.trans ?_⟩
      by_cases hsize : (engine.replace rule state.content).utf8ByteSize = state.content.utf8ByteSize
      · rw [applyRule_of_same_length hsize]
      · exact absurd hstep (applyRule_of_length hsize).2

theorem quiet_scrubRewrite : Quiet engine.scrubRewrite := by
  intro text h
  have hhits : (engine.scrubSecrets text).hits = [] := List.length_eq_zero_iff.mp h
  change (engine.scrubSecrets text).content = text
  rw [scrubSecrets, scrubWith] at hhits ⊢
  split at hhits
  · rename_i hblocked
    rw [if_pos hblocked]
  · rename_i hpassed
    rw [if_neg hpassed]
    exact (content_foldl_of_hits_nil hhits).2

variable (engine adapter body)

/-- Every message text of the body is scrubbed, in its place, whatever the walk returns. -/
def ScrubsEveryText : Prop :=
  ∀ body' hits, engine.scrubBody adapter body = some (body', hits) →
    adapter.messageTexts body' = (adapter.messageTexts body).map fun t =>
      { t with text := (engine.scrubSecrets t.text).content }

variable {engine adapter body}

/-- Scrubbing reaches every message text exactly when the call panics, or the texts it does not
visit hold nothing to scrub. -/
theorem scrubsEveryText_iff : engine.ScrubsEveryText adapter body ↔
    (Walkable body → ∀ t ∈ adapter.messageTexts body, t.place.visited = false →
      (engine.scrubSecrets t.text).content = t.text) := by
  have hreached : ∀ t : MessageText, t.after engine.scrubRewrite =
      { t with text := (engine.scrubSecrets t.text).content } ↔
        (t.place.visited = false → (engine.scrubSecrets t.text).content = t.text) := by
    intro t
    rw [MessageText.after]
    cases hvisited : t.place.visited with
    | true => simp [scrubRewrite]
    | false =>
        refine ⟨fun heq _ => (congrArg MessageText.text heq).symm, fun hsame => ?_⟩
        simp [hsame rfl]
  refine ⟨fun h hwalkable => ?_, fun h body' hits hscrub => ?_⟩
  · obtain ⟨⟨body', hits⟩, hscrub⟩ := Option.isSome_iff_exists.mp
      ((isSome_rewriteTexts engine.scrubRewrite adapter).mpr hwalkable)
    have heq := h body' hits hscrub
    rw [messageTexts_rewriteTexts quiet_scrubRewrite hscrub] at heq
    exact fun t ht => (hreached t).mp (List.map_inj_left.mp heq t ht)
  · have hwalkable : Walkable body := (isSome_rewriteTexts ..).mp (by rw [← scrubBody, hscrub]; rfl)
    rw [messageTexts_rewriteTexts quiet_scrubRewrite hscrub]
    exact List.map_congr_left fun t ht => (hreached t).mpr (h hwalkable t ht)

/-- An assignment whose value is shorter than the text that replaces it. -/
def shortSecret : String := "password=hunter2"

/-- The engine on that assignment: of the rule set only the assignment rule matches, once. -/
def shortSecretEngine : RegexEngine where
  replaceAll re text _ :=
    if re = secretAssignmentRe ∧ text = shortSecret then "password=[REDACTED]" else text
  captureCount re text := if re = secretAssignmentRe ∧ text = shortSecret then 1 else 0
  replaceAll_of_no_match re text _ h := by
    refine if_neg fun hmatch => ?_
    rw [if_pos hmatch] at h
    cases h

def plainRequest : Value :=
  .object [("model", .string "claude-sonnet-4-20250514"),
    ("messages", .array [.object [("role", .string "user"), ("content", .string shortSecret)]])]

theorem not_scrubsEveryText_plain :
    ¬ shortSecretEngine.ScrubsEveryText .anthropic plainRequest := by
  have hredacted : (shortSecretEngine.scrubSecrets shortSecret).content ≠ shortSecret := by
    decide +kernel
  intro h
  have htexts := h plainRequest 0 rfl
  have hplain : PlatformAdapter.anthropic.messageTexts plainRequest =
      [{ place := .message, text := shortSecret }] := rfl
  rw [hplain, List.map_singleton] at htexts
  exact hredacted (congrArg MessageText.text (List.cons.inj htexts).1).symm

end RegexEngine

end Proxy
end CleanCtx
