import CleanCtx.Library.JsonFrames
import CleanCtx.Proxy.ScrubReach

/-!
What the request transforms document, as updates of the body that only reach
members it has, and the bodies on which the pipeline makes exactly these updates.
On any other body a transform panics or leaves a member behind that was not
there: the members of the body, its messages and their blocks are counted.
-/
namespace CleanCtx
namespace Proxy

open Value

/-- The texts of a block rewritten, and those of the tool result it may be. -/
def rewrittenBlock (rewrite : String → Rewrite) (adapter : PlatformAdapter) (block : Value) : Value :=
  let block := mapMember "text" (rewriteString rewrite) block
  if adapter.isToolResult block then
    mapMember "content" (mapItems (List.map (mapMember "text" (rewriteString rewrite))))
      (mapMember "content" (rewriteString rewrite) block)
  else block

def rewrittenBody (rewrite : String → Rewrite) (adapter : PlatformAdapter) : Value → Value :=
  mapMember "messages" (mapItems (List.map
    (mapMember "content" (mapItems (List.map (rewrittenBlock rewrite adapter))))))

def droppedBody (dropSet : List String) : Value → Value :=
  mapMember "tools" (mapItems (List.filter fun tool => !dropSet.contains (toolName tool)))

def trimmedDescription (tool : Value) : Option String :=
  if toolName tool = "Bash" then (member tool "description").asStr.bind trimDescription else none

def trimmedTool (tool : Value) : Value :=
  mapMember "description" (fun _ => .string ((trimmedDescription tool).getD "")) tool

def trimmedBody : Value → Value :=
  mapMember "tools" (mapItems (mapFirst (fun tool => (trimmedDescription tool).isSome) trimmedTool))

def RegexEngine.overriddenBody (engine : RegexEngine) (model : String) (body : Value) : Value :=
  mapMember "system"
    (mapItems (List.map (mapMember "text" (rewriteString (engine.systemRewrite model)))))
    (mapMember "model" (rewriteString (modelRewrite model)) body)

namespace FilterEngine

variable (engine : FilterEngine)

def filteredContent (registry : FilterRegistry) (content : Value) : Value :=
  match (contentText content).bind (engine.filterText registry) with
  | some (_, finalContent) =>
      if isString content then .string finalContent else .array [textBlock finalContent]
  | none => content

def filteredBlock (registry : FilterRegistry) (adapter : PlatformAdapter) (block : Value) : Value :=
  if adapter.isToolResult block then mapMember "content" (engine.filteredContent registry) block
  else block

def filteredBody (registry : FilterRegistry) (adapter : PlatformAdapter) : Value → Value :=
  mapMember "messages" (mapItems (List.map
    (mapMember "content" (mapItems (List.map (engine.filteredBlock registry adapter))))))

end FilterEngine

def agedBlock (adapter : PlatformAdapter) (recentPaths : List (List Char))
    (totalMessages maxAgeTurns turn : Nat) (block : Value) : Value :=
  match agedText adapter recentPaths totalMessages maxAgeTurns turn block with
  | some text => mapMember "content" (fun _ => .string (agedStub block text turn)) block
  | none => block

def agedMessage (adapter : PlatformAdapter) (recentPaths : List (List Char))
    (totalMessages maxAgeTurns forcePreserveFloor turn : Nat) (msg : Value) : Value :=
  if agePreserved totalMessages forcePreserveFloor turn msg ||
      (itemsOf (member msg "content")).isEmpty then msg
  else
    mapMember "content" (mapItems
      (List.map (agedBlock adapter recentPaths totalMessages maxAgeTurns turn))) msg

def agedBody (adapter : PlatformAdapter) (maxAgeTurns forcePreserveFloor : Nat) : Value → Value :=
  mapMember "messages" (mapItems fun messages =>
    mapFrom (agedMessage adapter (recentPaths forcePreserveFloor messages) messages.length
      maxAgeTurns forcePreserveFloor) 0 messages)

/-- What a transform documents that it makes of a body. -/
def FilterEngine.documented (engine : FilterEngine) (config : PipelineConfig)
    (adapter : PlatformAdapter) : TransformFn → Value → Value
  | .dropTools => droppedBody config.dropToolsSet
  | .stripAnsi => rewrittenBody engine.ansiRewrite adapter
  | .trimBashGit => trimmedBody
  | .overrideModel model => engine.overriddenBody model
  | .scrubSecrets => rewrittenBody engine.scrubRewrite adapter
  | .applyToolFilters registry => engine.filteredBody registry adapter
  | .ageToolResults maxAgeTurns forcePreserveFloor => agedBody adapter maxAgeTurns forcePreserveFloor

/-- What the pipeline of a configuration documents that it makes of a body. -/
def FilterEngine.documentedBody (engine : FilterEngine) (config : PipelineConfig)
    (adapter : PlatformAdapter) (body : Value) : Value :=
  (Pipeline.build config).transforms.foldl
    (fun body transform => engine.documented config adapter transform body) body

def FitsBlock (adapter : PlatformAdapter) (block : Value) : Prop :=
  adapter.isToolResult block = true → (block.get "content").isSome

/-- The members a transform reaches for writing are there. -/
def TransformFn.Fits (adapter : PlatformAdapter) : TransformFn → Value → Prop
  | .dropTools => fun _ => True
  | .stripAnsi | .scrubSecrets =>
      HasMember "messages" (EachItem (HasMember "content" (EachItem (FitsBlock adapter))))
  | .trimBashGit => HasMember "tools" fun _ => True
  | .overrideModel _ => HasMember "system" fun _ => True
  | .applyToolFilters _ => HasMember "messages" (EachItem (HasMember "content" fun _ => True))
  | .ageToolResults _ _ => HasMember "messages" fun _ => True

def messageSize : Value → Nat :=
  Framed.sizeAt "content" (atItems fun blocks => (blocks.map keyCount).sum)

def bodySize : Value → Nat :=
  Framed.sizeAt "messages" (atItems fun messages => (messages.map messageSize).sum)

section Texts

variable {rewrite : String → Rewrite} {adapter : PlatformAdapter} {key : String} {block : Value}

theorem rewriteText_eq (hquiet : Quiet rewrite) (key : String) (block : Value) :
    ∃ n, rewriteText rewrite key block = some (mapMember key (rewriteString rewrite) block, n) := by
  obtain ⟨⟨block', n⟩, h⟩ := Option.isSome_iff_exists.mp (isSome_rewriteText rewrite key block)
  refine ⟨n, h.trans ?_⟩
  obtain ⟨rfl, -, hnone⟩ | ⟨text, htext, -, hplace⟩ := rewriteText_cases h
  · rw [mapMember_same]
    intro old hold
    cases old with
    | string text =>
        rw [rewriteString, hquiet text (hnone text (by rw [member, hold]; rfl))]
    | null | bool | number | array | object => rfl
  · cases hget : block.get key with
    | none => simp [member, hget, asStr] at htext
    | some old =>
        rw [member, hget, Option.getD_some] at htext
        cases old with
        | string s =>
            cases htext
            rw [atKey_present hget] at hplace
            cases hplace
            cases block with
            | object members =>
                have hold : members.lookup key = some (.string text) := hget
                simp only [mapMember_object hold, rewriteString]
            | null | bool | number | string | array => cases hget
        | null | bool | number | array | object => cases htext

theorem rewriteText_framed (hquiet : Quiet rewrite) (key : String) (size : Value → Nat)
    (hsize : ∀ v, size (mapMember key (rewriteString rewrite) v) = size v) :
    Framed (rewriteText rewrite key) (fun _ => True) (mapMember key (rewriteString rewrite)) size :=
  .always (rewriteText_eq hquiet key) hsize

theorem isToolResult_mapMember_text (rewrite : String → Rewrite) :
    adapter.isToolResult (mapMember "text" (rewriteString rewrite) block) =
      adapter.isToolResult block :=
  (sameKind_of_members (by rw [member_mapMember_of_ne (by decide)])
    fun _ hother _ => member_mapMember_of_ne hother).isToolResult

/-- The blocks of a tool result are walked without changing the number of its members. -/
theorem resultBlocks_framed (hquiet : Quiet rewrite) :
    Framed (atKey "content" (onArray 0 (forEach (rewriteText rewrite "text"))))
      (HasMember "content" (EachItem fun _ => True))
      (mapMember "content" (mapItems (List.map (mapMember "text" (rewriteString rewrite)))))
      keyCount := by
  refine (rewriteText_framed hquiet "text" (fun _ => 0) fun _ => rfl).eachItem.atKey "content" |>.congr_size
    fun v => ?_
  cases hcontent : v.member "content" <;> simp [Framed.sizeAt, hcontent, atItems]

theorem rewriteBlock_result (hquiet : Quiet rewrite) (block : Value)
    (htool : adapter.isToolResult block = true) :
    ∃ n m, rewriteBlock rewrite adapter block =
      (atKey "content" (onArray 0 (forEach (rewriteText rewrite "text")))
        (mapMember "content" (rewriteString rewrite)
          (mapMember "text" (rewriteString rewrite) block))).map
        fun (block, inner) => (block, n + m + inner) := by
  obtain ⟨own, htext⟩ := rewriteText_eq hquiet "text" block
  obtain ⟨content, hcontent⟩ := rewriteText_eq hquiet "content"
    (mapMember "text" (rewriteString rewrite) block)
  rw [← isToolResult_mapMember_text rewrite] at htool
  refine ⟨own, content, ?_⟩
  rw [rewriteBlock, htext, Option.bind_eq_bind, Option.bind_some]
  simp only [htool, if_true, hcontent, Option.bind_some]
  cases atKey "content" (onArray 0 (forEach (rewriteText rewrite "text"))) _ <;> rfl

theorem rewriteBlock_framed (hquiet : Quiet rewrite) :
    Framed (rewriteBlock rewrite adapter) (FitsBlock adapter) (rewrittenBlock rewrite adapter)
      keyCount := by
  -- Every block is written to under `text`; only a tool result is walked under `content`.
  have hplain : ∀ block, adapter.isToolResult block = false →
      ∃ n, rewriteBlock rewrite adapter block = some (rewrittenBlock rewrite adapter block, n) := by
    intro block htool
    obtain ⟨own, htext⟩ := rewriteText_eq hquiet "text" block
    rw [← isToolResult_mapMember_text rewrite] at htool
    exact ⟨own, by simp [rewriteBlock, htext, rewrittenBlock, htool]⟩
  have hinner := resultBlocks_framed hquiet
  refine ⟨fun {block} hfits => ?_, fun {block block' n} hstep => ?_, fun block => ?_⟩
  · cases htool : adapter.isToolResult block with
    | false => exact hplain block htool
    | true =>
        obtain ⟨n, m, hstep⟩ := rewriteBlock_result hquiet block htool
        obtain ⟨inner, hrun⟩ := hinner.run
          (a := mapMember "content" (rewriteString rewrite)
            (mapMember "text" (rewriteString rewrite) block))
          ⟨by simpa using hfits htool, fun _ _ => trivial⟩
        rw [← isToolResult_mapMember_text rewrite] at htool
        exact ⟨n + m + inner, by rw [hstep, hrun]; simp [rewrittenBlock, htool]⟩
  · cases htool : adapter.isToolResult block with
    | false =>
        obtain ⟨m, hrun⟩ := hplain block htool
        cases hrun.symm.trans hstep
        refine ⟨?_, fun _ hother => absurd (hother.symm.trans htool) (by decide)⟩
        rw [← isToolResult_mapMember_text rewrite] at htool
        simp [rewrittenBlock, htool]
    | true =>
        obtain ⟨own, content, hrun⟩ := rewriteBlock_result hquiet block htool
        obtain ⟨⟨result, inner⟩, hwalk, heq⟩ := Option.map_eq_some_iff.mp (hrun.symm.trans hstep)
        cases heq
        obtain ⟨hle, hfits⟩ := hinner.grows hwalk
        simp only [keyCount_mapMember] at hle hfits
        exact ⟨hle, fun heq _ => by simpa using (hfits heq).1⟩
  · rw [rewrittenBlock]
    split <;> simp

theorem rewriteTexts_framed (hquiet : Quiet rewrite) :
    Framed (rewriteTexts rewrite adapter)
      (HasMember "messages" (EachItem (HasMember "content" (EachItem (FitsBlock adapter)))))
      (rewrittenBody rewrite adapter) bodySize :=
  ((rewriteBlock_framed hquiet).eachItem.atKey "content").eachItem.atKey "messages"

end Texts

section Quiet

variable (engine : RegexEngine)

theorem quiet_ansiRewrite : Quiet engine.ansiRewrite :=
  fun text h => engine.replaceAll_of_no_match ansiRe text "" h

theorem quiet_modelRewrite (model : String) : Quiet (modelRewrite model) := by
  intro current h
  rw [modelRewrite] at h ⊢
  split at h
  · rename_i hsame
    rw [if_pos hsame]
  · cases h

theorem quiet_systemRewrite (model : String) : Quiet (engine.systemRewrite model) := by
  intro text h
  simp only [RegexEngine.systemRewrite] at h ⊢
  split at h
  · cases h
  · rename_i hsame
    rw [if_neg hsame]

end Quiet

section Tools

variable {engine : RegexEngine} {dropSet : List String} {model : String}

theorem bodySize_mapMember {key : String} (hne : "messages" ≠ key) (F : Value → Value) (body : Value) :
    bodySize (mapMember key F body) = bodySize body := by
  rw [bodySize, Framed.sizeAt, Framed.sizeAt, keyCount_mapMember, member_mapMember_of_ne hne]

theorem atItems_zero (value : Value) : 0 = atItems (fun _ => 0) value := by
  cases value <;> rfl

/-- Without names to drop or tools to look at the update changes nothing. -/
theorem droppedBody_same {body : Value}
    (h : (dropSet.isEmpty || (itemsOf (member body "tools")).isEmpty) = true) :
    droppedBody dropSet body = body := by
  refine mapMember_same fun old hold => ?_
  rw [member, hold, Option.getD_some] at h
  cases old with
  | array tools =>
      obtain hdrop | htools := Bool.or_eq_true_iff.mp h
      · rw [List.isEmpty_iff.mp hdrop, mapItems]
        exact congrArg array (List.filter_eq_self.mpr fun _ _ => rfl)
      · rw [mapItems, show tools = [] from List.isEmpty_iff.mp htools]
        rfl
  | null | bool | number | string | object => rfl

theorem dropTools_framed : Framed (dropTools dropSet) (fun _ => True) (droppedBody dropSet) bodySize := by
  have hlist : Framed (fun tools =>
      let kept := tools.filter fun tool => !dropSet.contains (toolName tool)
      some (kept, tools.length - kept.length)) (fun _ => True)
      (List.filter fun tool => !dropSet.contains (toolName tool)) fun _ => 0 :=
    .always (fun _ => ⟨_, rfl⟩) fun _ => rfl
  have hwalk := ((hlist.onArray 0).congr_size atItems_zero).atOther
    (show "messages" ≠ "tools" by decide) (atItems fun messages => (messages.map messageSize).sum)
  have hguarded := hwalk.guarded (p := fun body =>
    dropSet.isEmpty || (itemsOf (member body "tools")).isEmpty) 0 fun body hguard => by
      refine ⟨isSome_get_of_items fun hnone => ?_, fun _ _ => trivial⟩
      rw [itemsOf, hnone, List.isEmpty_nil, Bool.or_true] at hguard
      cases hguard
  refine (hguarded.congr_step fun body => ?_).congr_update fun body => ?_
  · rw [dropTools]
    cases dropSet.isEmpty <;> cases (itemsOf (member body "tools")).isEmpty <;> rfl
  · by_cases h : (dropSet.isEmpty || (itemsOf (member body "tools")).isEmpty) = true
    · rw [if_pos h, droppedBody_same h]
    · rw [if_neg h, droppedBody]

theorem trimTool_eq (tool : Value) : trimTool tool =
    some (if (trimmedDescription tool).isSome then trimmedTool tool else tool,
      (trimmedDescription tool).isSome) := by
  rw [trimTool]
  by_cases hname : toolName tool = "Bash"
  · have htrimmed : trimmedDescription tool =
        (member tool "description").asStr.bind trimDescription := if_pos hname
    rw [if_pos hname, ← htrimmed]
    cases hcase : trimmedDescription tool with
    | none => rfl
    | some trimmed =>
        have hget : ∃ old, tool.get "description" = some old := by
          rw [htrimmed] at hcase
          cases hget : tool.get "description" with
          | none => simp [member, hget, asStr] at hcase
          | some old => exact ⟨old, rfl⟩
        obtain ⟨old, hget⟩ := hget
        simp only [atKey_present hget, Option.map_some, trimmedTool, hcase, Option.isSome_some,
          if_true, Option.getD_some]
  · rw [if_neg hname, trimmedDescription, if_neg hname]
    rfl

theorem trimBashGit_framed :
    Framed trimBashGit (HasMember "tools" fun _ => True) trimmedBody bodySize :=
  ((((Framed.untilFound trimTool_eq).onArray false).congr_size atItems_zero).atOther (by decide) _).congr_fits
    fun _ => hasMember_congr fun _ => by simp

theorem overrideModel_framed : Framed (engine.overrideModel model)
    (HasMember "system" fun _ => True) (engine.overriddenBody model) bodySize := by
  have hblocks : Framed (onArray 0 (forEach (rewriteText (engine.systemRewrite model) "text")))
      (EachItem fun _ => True)
      (mapItems (List.map (mapMember "text" (rewriteString (engine.systemRewrite model)))))
      fun _ => 0 :=
    (rewriteText_framed (quiet_systemRewrite engine model) "text" (fun _ => 0)
      fun _ => rfl).eachItem.congr_size fun value => by cases value <;> simp [atItems]
  have hsystem := (hblocks.atOther (show "messages" ≠ "system" by decide)
    (atItems fun messages => (messages.map messageSize).sum)).comp
      (U := mapMember "model" (rewriteString (modelRewrite model)))
      fun body => bodySize_mapMember (by decide) _ body
  choose renamed hrenamed using rewriteText_eq (quiet_modelRewrite model) "model"
  refine ((hsystem.record fun body rewritten =>
    decide (0 < renamed body + rewritten)).congr_step fun body => ?_).congr_fits fun body => ?_
  · rw [RegexEngine.overrideModel, hrenamed body, Option.map_eq_bind]
    rfl
  · rw [hasMember_mapMember_of_ne (by decide)]
    exact hasMember_congr fun _ => by simp [EachItem]

end Tools

section Results

variable {engine : FilterEngine} {registry : FilterRegistry} {adapter : PlatformAdapter}
  {block : Value}

theorem exists_content {text : String} (h : contentText (member block "content") = some text) :
    ∃ content, block.get "content" = some content ∧ contentText content = some text := by
  cases hget : block.get "content" with
  | none => simp [member, hget, contentText, asStr, asArray] at h
  | some content => exact ⟨content, rfl, by simpa [member, hget] using h⟩

theorem setContent_eq {content : Value} (hget : block.get "content" = some content) (text : String) :
    setContent text block = some (mapMember "content" (fun _ => .string text) block, ()) :=
  atKey_present hget

theorem filterBlock_eq (block : Value) : ∃ applied, engine.filterBlock registry adapter block =
    some (engine.filteredBlock registry adapter block, applied) := by
  rw [FilterEngine.filterBlock, FilterEngine.filteredBlock]
  cases adapter.isToolResult block with
  | false => exact ⟨[], rfl⟩
  | true =>
      rw [if_pos rfl, if_pos rfl]
      cases htext : (contentText (member block "content")).bind (engine.filterText registry) with
      | none =>
          refine ⟨[], ?_⟩
          rw [mapMember_same]
          intro old hold
          rw [member, hold, Option.getD_some] at htext
          rw [FilterEngine.filteredContent, htext]
      | some outcome =>
          obtain ⟨result, finalContent⟩ := outcome
          obtain ⟨text, hcontent, hfilter⟩ := Option.bind_eq_some_iff.mp htext
          obtain ⟨content, hget, hread⟩ := exists_content hcontent
          have hmember : member block "content" = content := by rw [member, hget]; rfl
          have hupdate : ∀ new, engine.filteredContent registry content = new →
              mapMember "content" (engine.filteredContent registry) block =
                mapMember "content" (fun _ => new) block := fun new hnew =>
            mapMember_congr fun old hold => by cases hget.symm.trans hold; exact hnew
          refine ⟨[result], ?_⟩
          simp only [hmember]
          by_cases hstring : isString content = true
          · rw [if_pos hstring, setContent_eq hget, hupdate (.string finalContent)]
            · rfl
            · simp only [FilterEngine.filteredContent, hread, Option.bind_some, hfilter, if_pos hstring]
          · rw [if_neg hstring, atKey_present hget, hupdate (.array [textBlock finalContent])]
            · cases content with
              | array => rfl
              | string s => exact absurd rfl hstring
              | null | bool | number | object => simp [contentText, asStr, asArray] at hread
            · simp only [FilterEngine.filteredContent, hread, Option.bind_some, hfilter,
                if_neg hstring]

theorem applyToolFilters_framed : Framed (engine.applyToolFilters registry adapter)
    (HasMember "messages" (EachItem (HasMember "content" fun _ => True)))
    (engine.filteredBody registry adapter) bodySize := by
  have hblock : Framed (engine.filterBlock registry adapter) (fun _ => True)
      (engine.filteredBlock registry adapter) keyCount := by
    refine .always filterBlock_eq fun block => ?_
    rw [FilterEngine.filteredBlock]
    split <;> simp
  have hmessage := (Framed.eachItemIdx (fun _ => hblock) 0).atKey "content"
  have hbody := (Framed.eachItemIdx (fun _ => hmessage) 0).atKey "messages"
  simp only [mapFrom_const] at hbody
  exact hbody.congr_fits fun _ => hasMember_congr fun _ => forall₂_congr fun _ _ =>
    hasMember_congr fun _ => by simp [EachItem]

end Results

section Ageing

variable {adapter : PlatformAdapter} {maxAgeTurns forcePreserveFloor : Nat}

theorem exists_content_of_agedText {recentPaths : List (List Char)} {totalMessages turn : Nat}
    {block : Value} {text : String}
    (h : agedText adapter recentPaths totalMessages maxAgeTurns turn block = some text) :
    ∃ content, block.get "content" = some content := by
  rw [agedText] at h
  split at h
  · cases hcontent : contentText (member block "content") with
    | none => simp [hcontent] at h
    | some text =>
        obtain ⟨content, hget, -⟩ := exists_content hcontent
        exact ⟨content, hget⟩
  · cases h

theorem ageBlock_framed (adapter : PlatformAdapter) (recentPaths : List (List Char))
    (totalMessages maxAgeTurns turn : Nat) : Framed (ageBlock adapter recentPaths totalMessages maxAgeTurns turn)
    (fun _ => True) (agedBlock adapter recentPaths totalMessages maxAgeTurns turn) keyCount := by
  refine .always (fun block => ?_) fun block => ?_
  · rw [ageBlock, agedBlock]
    cases haged : agedText adapter recentPaths totalMessages maxAgeTurns turn block with
    | none => exact ⟨[], rfl⟩
    | some text =>
        obtain ⟨content, hget⟩ := exists_content_of_agedText haged
        simp only [setContent_eq hget, Option.map_some]
        exact ⟨_, rfl⟩
  · rw [agedBlock]
    split <;> simp

theorem ageMessage_framed (adapter : PlatformAdapter) (recentPaths : List (List Char))
    (totalMessages maxAgeTurns forcePreserveFloor turn : Nat) :
    Framed (ageMessage adapter recentPaths totalMessages maxAgeTurns forcePreserveFloor turn)
      (fun _ => True)
      (agedMessage adapter recentPaths totalMessages maxAgeTurns forcePreserveFloor turn)
      messageSize := by
  have hblocks := (Framed.eachItemIdx (fun _ => ageBlock_framed adapter recentPaths totalMessages
    maxAgeTurns turn) 0).atKey "content"
  simp only [mapFrom_const] at hblocks
  refine hblocks.guarded [] fun msg hguard => ?_
  refine ⟨isSome_get_of_items fun hnone => ?_, fun _ _ => trivial⟩
  rw [itemsOf, hnone, List.isEmpty_nil, Bool.or_true] at hguard
  cases hguard

theorem ageToolResults_framed : Framed (ageToolResults adapter maxAgeTurns forcePreserveFloor)
    (HasMember "messages" fun _ => True) (agedBody adapter maxAgeTurns forcePreserveFloor)
    bodySize := by
  have hmessages := fun context : List (List Char) × Nat => Framed.forEachIdx
    (ageMessage_framed adapter context.1 context.2 maxAgeTurns forcePreserveFloor) 0
  have hbody := ((Framed.param hmessages fun messages =>
    (recentPaths forcePreserveFloor messages, messages.length)).onArray []).atKey "messages"
  exact hbody.congr_fits fun _ => hasMember_congr fun _ => by simp

end Ageing

section Blocks

variable {rewrite : String → Rewrite} {adapter : PlatformAdapter} {engine : FilterEngine}
  {registry : FilterRegistry} {block : Value}

theorem isToolResult_mapMember_content {F : Value → Value} (hF : ∀ v, isString (F v) = isString v) :
    adapter.isToolResult (mapMember "content" F block) = adapter.isToolResult block := by
  refine (sameKind_of_members ?_ fun _ _ hother => member_mapMember_of_ne hother).isToolResult
  rw [member, get_mapMember, member]
  cases block.get "content" with
  | none => rfl
  | some old => exact hF old

theorem isToolResult_rewrittenBlock :
    adapter.isToolResult (rewrittenBlock rewrite adapter block) = adapter.isToolResult block := by
  simp only [rewrittenBlock]
  split
  · rw [isToolResult_mapMember_content fun v => by cases v <;> rfl,
      isToolResult_mapMember_content isString_rewriteString, isToolResult_mapMember_text]
  · exact isToolResult_mapMember_text rewrite

theorem isString_filteredContent (content : Value) :
    isString (engine.filteredContent registry content) = isString content := by
  rw [FilterEngine.filteredContent]
  split
  · split
    · rename_i hstring
      exact hstring.symm
    · rename_i hstring
      rw [Bool.not_eq_true] at hstring
      rw [hstring]
      rfl
  · rfl

theorem isToolResult_filteredBlock : adapter.isToolResult (engine.filteredBlock registry adapter block) =
    adapter.isToolResult block := by
  rw [FilterEngine.filteredBlock]
  split
  · exact isToolResult_mapMember_content isString_filteredContent
  · rfl

/-- A stub is a string: it makes no block a tool result that was none, nor the reverse. -/
theorem isToolResult_agedBlock {recentPaths : List (List Char)}
    {totalMessages maxAgeTurns turn : Nat} : adapter.isToolResult
      (agedBlock adapter recentPaths totalMessages maxAgeTurns turn block) =
        adapter.isToolResult block := by
  rw [agedBlock]
  cases haged : agedText adapter recentPaths totalMessages maxAgeTurns turn block with
  | none => rfl
  | some text =>
      obtain ⟨content, hget⟩ := exists_content_of_agedText haged
      have htool : adapter.isToolResult block = true := by
        rw [agedText] at haged
        split at haged
        · assumption
        · cases haged
      have hstring : isString (member (mapMember "content"
          (fun _ => .string (agedStub block text turn)) block) "content") = true := by
        rw [member, get_mapMember, hget]
        rfl
      rw [htool]
      cases adapter with
      | anthropic | openai =>
          simpa only [PlatformAdapter.isToolResult, hasText,
            member_mapMember_of_ne (show "type" ≠ "content" by decide),
            member_mapMember_of_ne (show "role" ≠ "content" by decide)] using htool
      | generic =>
          have hkind := (Bool.and_eq_true_iff.mp htool).2
          simp only [PlatformAdapter.isToolResult, PlatformAdapter.genericHasContent, hstring,
            Bool.true_or, Bool.true_and]
          simpa only [PlatformAdapter.genericNotUser, PlatformAdapter.genericHasToolIndicator,
            hasText, member_mapMember_of_ne (show "type" ≠ "content" by decide),
            member_mapMember_of_ne (show "role" ≠ "content" by decide)] using hkind

theorem fitsBlock_rewrittenBlock :
    FitsBlock adapter (rewrittenBlock rewrite adapter block) ↔ FitsBlock adapter block := by
  rw [FitsBlock, FitsBlock, isToolResult_rewrittenBlock]
  simp only [rewrittenBlock]
  split <;> simp

theorem fitsBlock_filteredBlock :
    FitsBlock adapter (engine.filteredBlock registry adapter block) ↔ FitsBlock adapter block := by
  rw [FitsBlock, FitsBlock, isToolResult_filteredBlock, FilterEngine.filteredBlock]
  split <;> simp

theorem fitsBlock_agedBlock {recentPaths : List (List Char)}
    {totalMessages maxAgeTurns turn : Nat} :
    FitsBlock adapter (agedBlock adapter recentPaths totalMessages maxAgeTurns turn block) ↔
      FitsBlock adapter block := by
  rw [FitsBlock, FitsBlock, isToolResult_agedBlock, agedBlock]
  split <;> simp

end Blocks

section Runs

variable {engine : FilterEngine} {config : PipelineConfig} {adapter : PlatformAdapter}
  {body : Value}

theorem applyTransform_framed (transform : TransformFn) (stats : TransformStats) :
    Framed (fun body => engine.applyTransform config adapter body stats transform)
      (transform.Fits adapter) (engine.documented config adapter transform) bodySize := by
  cases transform with
  | dropTools =>
      exact dropTools_framed.record fun _ dropped =>
        { stats with toolsDropped := stats.toolsDropped + dropped }
  | stripAnsi =>
      exact (rewriteTexts_framed (quiet_ansiRewrite engine.toRegexEngine)).record fun _ stripped =>
        { stats with ansiSequencesStripped := stats.ansiSequencesStripped + stripped }
  | trimBashGit =>
      exact trimBashGit_framed.record fun _ trimmed =>
        { stats with bashGitTrims := stats.bashGitTrims + trimmed.toNat }
  | overrideModel model =>
      exact overrideModel_framed.record fun _ changed =>
        { stats with modelOverrides := stats.modelOverrides + changed.toNat }
  | scrubSecrets =>
      exact (rewriteTexts_framed RegexEngine.quiet_scrubRewrite).record fun _ hits =>
        { stats with secretsScrubbed := stats.secretsScrubbed + hits }
  | applyToolFilters registry =>
      exact applyToolFilters_framed.record fun _ applied =>
        { stats with
          toolFiltersApplied := stats.toolFiltersApplied + applied.length
          filterStats := stats.filterStats ++ applied }
  | ageToolResults maxAgeTurns forcePreserveFloor =>
      exact ageToolResults_framed.record fun _ removed =>
        if removed.isEmpty then stats
        else { stats with slidingWindow := stats.slidingWindow.record removed.sum }

/-- What fits of the messages of a body still fits after an update of each that keeps it. -/
theorem fits_messages {fits : Value → Prop} {F : Nat → Value → Value}
    (h : ∀ i msg, fits (F i msg) ↔ fits msg) :
    HasMember "messages" (EachItem fits) (mapMember "messages" (mapItems (mapFrom F 0)) body) ↔
      HasMember "messages" (EachItem fits) body := by
  rw [hasMember_mapMember]
  exact hasMember_congr fun _ => eachItem_mapFrom h 0

/-- What fits of the blocks of a message still fits after an update of each that keeps it. -/
theorem fits_blocks {fits : Value → Prop} {F : Value → Value} (h : ∀ block, fits (F block) ↔ fits block)
    {msg : Value} :
    HasMember "content" (EachItem fits) (mapMember "content" (mapItems (List.map F)) msg) ↔
      HasMember "content" (EachItem fits) msg := by
  rw [hasMember_mapMember, ← mapFrom_const F 0]
  exact hasMember_congr fun _ => eachItem_mapFrom (fun _ => h) 0

end Runs

/-- A message after an update that keeps which places are there. -/
def KeepsPlaces (adapter : PlatformAdapter) (F : Value → Value) : Prop :=
  ∀ msg, (HasMember "content" (EachItem (FitsBlock adapter)) (F msg) ↔
      HasMember "content" (EachItem (FitsBlock adapter)) msg) ∧
    (HasMember "content" (fun _ => True) (F msg) ↔ HasMember "content" (fun _ => True) msg)

section Places

variable {engine : FilterEngine} {config : PipelineConfig} {adapter : PlatformAdapter}
  {body : Value}

theorem keepsPlaces_blocks {F : Value → Value}
    (h : ∀ block, FitsBlock adapter (F block) ↔ FitsBlock adapter block) :
    KeepsPlaces adapter (mapMember "content" (mapItems (List.map F))) :=
  fun _ => ⟨fits_blocks h, present_mapMember⟩

theorem keepsPlaces_agedMessage {recentPaths : List (List Char)}
    {totalMessages maxAgeTurns forcePreserveFloor turn : Nat} : KeepsPlaces adapter
      (agedMessage adapter recentPaths totalMessages maxAgeTurns forcePreserveFloor turn) := by
  intro msg
  rw [agedMessage]
  split
  · exact ⟨Iff.rfl, Iff.rfl⟩
  · exact keepsPlaces_blocks (fun _ => fitsBlock_agedBlock) msg

/-- An update of the messages keeps whether a transform fits when it keeps their places. -/
theorem fits_updated_messages {F : Nat → Value → Value} (h : ∀ i, KeepsPlaces adapter (F i))
    (transform : TransformFn) :
    transform.Fits adapter (mapMember "messages" (mapItems (mapFrom F 0)) body) ↔
      transform.Fits adapter body := by
  cases transform with
  | dropTools => rfl
  | stripAnsi | scrubSecrets => exact fits_messages fun i msg => (h i msg).1
  | applyToolFilters => exact fits_messages fun i msg => (h i msg).2
  | trimBashGit | overrideModel | ageToolResults => exact present_mapMember

/-- An update of another member than the messages keeps whether a transform fits. -/
theorem fits_updated_other {key : String} {F : Value → Value} (hmessages : "messages" ≠ key)
    (transform : TransformFn) :
    transform.Fits adapter (mapMember key F body) ↔ transform.Fits adapter body := by
  cases transform with
  | dropTools => rfl
  | stripAnsi | scrubSecrets | applyToolFilters => exact hasMember_mapMember_of_ne hmessages
  | trimBashGit | overrideModel | ageToolResults => exact present_mapMember

/-- No transform's update changes whether a transform fits. -/
theorem fits_documented (transform other : TransformFn) :
    transform.Fits adapter (engine.documented config adapter other body) ↔
      transform.Fits adapter body := by
  cases other with
  | dropTools | trimBashGit => exact fits_updated_other (by decide) transform
  | overrideModel model =>
      exact (fits_updated_other (by decide) transform).trans (fits_updated_other (by decide) transform)
  | stripAnsi | scrubSecrets =>
      simp only [FilterEngine.documented, rewrittenBody, ← mapFrom_const _ 0]
      refine fits_updated_messages (fun _ => ?_) transform
      rw [mapFrom_const]
      exact keepsPlaces_blocks fun _ => fitsBlock_rewrittenBlock
  | applyToolFilters registry =>
      simp only [FilterEngine.documented, FilterEngine.filteredBody, ← mapFrom_const _ 0]
      refine fits_updated_messages (fun _ => ?_) transform
      rw [mapFrom_const]
      exact keepsPlaces_blocks fun _ => fitsBlock_filteredBlock
  | ageToolResults maxAgeTurns forcePreserveFloor =>
      have hbody : agedBody adapter maxAgeTurns forcePreserveFloor body =
          mapMember "messages" (mapItems (mapFrom (agedMessage adapter
            (recentPaths forcePreserveFloor (itemsOf (member body "messages")))
            (itemsOf (member body "messages")).length maxAgeTurns forcePreserveFloor) 0)) body := by
        refine mapMember_congr fun old hold => ?_
        rw [member, hold]
        cases old <;> rfl
      rw [FilterEngine.documented, hbody]
      exact fits_updated_messages (fun _ => keepsPlaces_agedMessage) transform

end Places

section Runs

variable {engine : FilterEngine} {config : PipelineConfig} {adapter : PlatformAdapter}
  {body : Value} {transforms : List TransformFn}

/-- Where every transform fits, each makes its update. -/
theorem runTransforms_documented (h : ∀ transform ∈ transforms, transform.Fits adapter body)
    (stats : TransformStats) : ∃ stats', engine.runTransforms config adapter transforms body stats =
      some (transforms.foldl
        (fun body transform => engine.documented config adapter transform body) body, stats') := by
  induction transforms generalizing body stats with
  | nil => exact ⟨stats, rfl⟩
  | cons transform rest ih =>
      obtain ⟨hfits, hrest⟩ := List.forall_mem_cons.mp h
      obtain ⟨stats₁, hstep⟩ := (applyTransform_framed transform stats).run hfits
      have hlater : ∀ later ∈ rest,
          later.Fits adapter (engine.documented config adapter transform body) :=
        fun later hmem => (fits_documented later transform).mpr (hrest later hmem)
      obtain ⟨stats', hrun⟩ := ih hlater stats₁
      refine ⟨stats', ?_⟩
      rw [FilterEngine.runTransforms, hstep, Option.bind_eq_bind, Option.bind_some]
      exact hrun

/-- A run adds members, or every transform fits. -/
theorem runTransforms_grows {body' : Value} {stats stats' : TransformStats}
    (h : engine.runTransforms config adapter transforms body stats = some (body', stats')) :
    bodySize body ≤ bodySize body' ∧
      (bodySize body' = bodySize body → ∀ transform ∈ transforms, transform.Fits adapter body) := by
  induction transforms generalizing body stats with
  | nil =>
      cases h
      exact ⟨Nat.le_refl _, fun _ => nofun⟩
  | cons transform rest ih =>
      rw [FilterEngine.runTransforms] at h
      obtain ⟨⟨body₁, stats₁⟩, hstep, hrun⟩ := Option.bind_eq_some_iff.mp h
      obtain ⟨hle, hfits⟩ := (applyTransform_framed transform stats).grows hstep
      obtain ⟨hles, hall⟩ := ih hrun
      refine ⟨hle.trans hles, fun heq => ?_⟩
      have hfirst : transform.Fits adapter body := hfits (by omega)
      obtain ⟨stats₂, hdocumented⟩ := (applyTransform_framed transform stats).run hfirst
      cases hstep.symm.trans hdocumented
      refine List.forall_mem_cons.mpr ⟨hfirst, fun later hmem => ?_⟩
      exact (fits_documented later transform).mp (hall (by omega) later hmem)

theorem bodySize_documented (stats : TransformStats) :
    bodySize (transforms.foldl
      (fun body transform => engine.documented config adapter transform body) body) =
        bodySize body := by
  induction transforms generalizing body with
  | nil => rfl
  | cons transform rest ih => exact ih.trans ((applyTransform_framed transform stats).keeps body)

/-- The pipeline makes of a body exactly what its enabled transforms document, whatever the
statistics before, exactly when the members each of them reaches for writing are there. -/
theorem runPipeline_documented_iff (engine : FilterEngine) (config : PipelineConfig)
    (adapter : PlatformAdapter) (body : Value) (stats : TransformStats) :
    (∃ stats', engine.runPipeline (Pipeline.build config) config adapter body stats =
        some (engine.documentedBody config adapter body, stats')) ↔
      ∀ transform ∈ (Pipeline.build config).transforms, transform.Fits adapter body :=
  ⟨fun ⟨_, hrun⟩ => (runTransforms_grows hrun).2 (bodySize_documented stats),
    fun h => runTransforms_documented h stats⟩

def silentEngine : FilterEngine where
  replaceAll _ text _ := text
  captureCount _ _ := 0
  replaceAll_of_no_match _ _ _ _ := rfl
  isMatch _ _ := false
  findLen _ _ := none
  captureKey _ _ := none
  parsesAsJson _ := false
  scaleWords count := count + count * 3 / 10
  percent _ _ := "0.0"

def overrideConfig : PipelineConfig where
  dropToolsSet := []
  stripAnsi := false
  trimBashGit := false
  modelOverride := some "claude-opus-4-6"
  scrubSecrets := false
  toolFilters := false
  filterRegistry := none
  slidingWindowEnabled := false
  slidingWindowMaxAgeTurns := 20
  slidingWindowForcePreserveFloor := 15

def noStats : TransformStats where
  toolsDropped := 0
  ansiSequencesStripped := 0
  bashGitTrims := 0
  modelOverrides := 0
  secretsScrubbed := 0
  toolFiltersApplied := 0
  filterStats := []
  slidingWindow := { itemsAged := 0, bytesRemoved := 0, cumulativeBytesRemoved := 0 }

def promptlessRequest : Value :=
  .object [("model", .string "claude-sonnet-4-20250514"),
    ("messages", .array [.object [("role", .string "user"), ("content", .string "hi")]])]

/-- The override leaves a system prompt behind that is `null`. -/
theorem not_runPipeline_documented_promptless :
    ¬∃ stats', silentEngine.runPipeline (Pipeline.build overrideConfig) overrideConfig .anthropic
      promptlessRequest noStats =
        some (silentEngine.documentedBody overrideConfig .anthropic promptlessRequest, stats') := by
  have hrun : silentEngine.runPipeline (Pipeline.build overrideConfig) overrideConfig .anthropic
      promptlessRequest noStats =
        some (.object [("model", .string "claude-opus-4-6"),
          ("messages", .array [.object [("role", .string "user"), ("content", .string "hi")]]),
          ("system", .null)], { noStats with modelOverrides := 1 }) := by
    rfl
  have hdocumented : silentEngine.documentedBody overrideConfig .anthropic promptlessRequest =
      .object [("model", .string "claude-opus-4-6"),
        ("messages", .array [.object [("role", .string "user"), ("content", .string "hi")]])] := by
    rfl
  rintro ⟨stats', heq⟩
  rw [hrun, hdocumented] at heq
  simp at heq

end Runs

end Proxy
end CleanCtx
