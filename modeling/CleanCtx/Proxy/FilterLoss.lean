import CleanCtx.Proxy.Filters

/-!
What output filtering loses and what it says of it. Replacements, a collapse and
the fallback of an empty output lose lines without the truncation flag; of the
later stages the windows and the cap set it exactly when they cut. The guard that
follows looks at the flag, so that a window never leaves a part of a JSON document.
-/
namespace CleanCtx
namespace Proxy

/-- A cut leaves the text and the flag alone, or sets the flag and leaves fewer lines. -/
def CutsHonestly (cut : String × Bool → String × Bool) : Prop :=
  ∀ state, cut state = state ∨
    (cut state).2 = true ∧ (linesOf (cut state).1).length < (linesOf state.1).length

section Lines

theorem length_linesOf_joinLines_le {text : String} {ls : List String}
    (h : ls.Sublist (linesOf text)) : (linesOf (joinLines ls)).length ≤ ls.length := by
  have hlines : ∀ l ∈ ls.map String.toList, '\n' ∉ l := by
    intro l hl
    obtain ⟨line, hline, rfl⟩ := List.mem_map.mp hl
    obtain ⟨chars, hchars, rfl⟩ := List.mem_map.mp (h.mem hline)
    rw [String.toList_ofList]
    exact newline_not_mem_linesFrom List.not_mem_nil chars hchars
  rw [linesOf, joinLines, String.toList_intercalate, List.length_map]
  refine (length_lines_intercalate_le hlines).trans ?_
  rw [List.length_map]

theorem firstLines_cutsHonestly (limit : Option Nat) : CutsHonestly (firstLines limit) := by
  intro state
  cases limit with
  | none => exact .inl rfl
  | some n =>
      rw [firstLines]
      by_cases hcut : n < (linesOf state.1).length
      · refine .inr ?_
        simp only [if_pos hcut, true_and]
        refine (length_linesOf_joinLines_le (List.take_sublist n _)).trans_lt ?_
        exact (List.length_take_le n _).trans_lt hcut
      · exact .inl (if_neg hcut)

theorem lastLines_cutsHonestly (limit : Option Nat) : CutsHonestly (lastLines limit) := by
  intro state
  cases limit with
  | none => exact .inl rfl
  | some n =>
      rw [lastLines]
      by_cases hcut : n < (linesOf state.1).length
      · refine .inr ?_
        simp only [if_pos hcut, true_and]
        refine (length_linesOf_joinLines_le (List.drop_sublist _ _)).trans_lt ?_
        rw [List.length_drop]
        omega
      · exact .inl (if_neg hcut)

theorem CutsHonestly.comp {cut cut' : String × Bool → String × Bool} (h : CutsHonestly cut)
    (h' : CutsHonestly cut') : CutsHonestly fun state => cut' (cut state) := by
  intro state
  obtain hsame | ⟨hflag, hfewer⟩ := h state
  · dsimp only
    rw [hsame]
    exact h' state
  · refine .inr ?_
    obtain hsame' | ⟨hflag', hfewer'⟩ := h' (cut state)
    · dsimp only
      rw [hsame']
      exact ⟨hflag, hfewer⟩
    · exact ⟨hflag', hfewer'.trans hfewer⟩

theorem length_firstLines_le (n : Nat) (state : String × Bool) :
    (linesOf (firstLines (some n) state).1).length ≤ n := by
  rw [firstLines]
  split
  · exact (length_linesOf_joinLines_le (List.take_sublist n _)).trans (List.length_take_le n _)
  · omega

end Lines

namespace FilterEngine

variable (engine : FilterEngine) (filter : CompiledFilter) (content : String) (failed : Bool)

def rewritten : String :=
  filter.replace.foldl (fun text rule => engine.applyReplace rule text)
    (if filter.stripAnsi then engine.replaceAll ansiRe content "" else content)

/-- Neither collapsed nor replaced by the fallback of an empty output. -/
structure Reduced : Prop where
  expanded : (engine.applyFilter filter content failed).collapsed = false
  shown : filter.onEmpty = none ∨
    isBlank (engine.reduceLines filter (engine.rewritten filter content)).1 = false

/-- What the guard makes of the result of the filter. -/
def guarded : String × Bool :=
  engine.jsonGuard content (engine.applyFilter filter content failed).content
    (engine.applyFilter filter content failed).truncated filter.reduceJson

/-- Every loss shows: a line that is gone is one the selection left out of a text that is no JSON
document, or the flag is set; a JSON document comes back whole; the cap holds. -/
structure ShowsLoss : Prop where
  missing : ∀ line ∈ linesOf content,
    line ∉ linesOf (engine.applyFilter filter content failed).content →
      (engine.applyFilter filter content failed).truncated = true ∨
        (engine.isCompleteJson content = false ∧ engine.selectsLine filter line = false)
  whole : engine.isCompleteJson content = true → filter.reduceJson = false →
    (engine.guarded filter content failed).1 = content
  capped : engine.Reduced filter content failed → ∀ n, filter.maxLines = some n →
    (linesOf (engine.applyFilter filter content failed).content).length ≤ n

/-- The losses that show. Where nothing replaced the output and the lines are not grouped, the flag
is clear exactly when the output is the selected lines of the rewritten text; where they are grouped
a clear flag leaves what the groups keep of them. A truncated JSON document comes back whole or as a
notice of its size, and one that only windows and caps could cut comes back whole. -/
structure AccountsForLoss : Prop where
  selected : engine.Reduced filter content failed → filter.groupBy = none →
    ((engine.applyFilter filter content failed).truncated = false ↔
      (engine.applyFilter filter content failed).content =
        engine.selectLines filter (engine.rewritten filter content))
  grouped : engine.Reduced filter content failed → ∀ gb, filter.groupBy = some gb →
    (engine.applyFilter filter content failed).truncated = false →
      (engine.applyFilter filter content failed).content =
        engine.applyGroupBy gb (engine.selectLines filter (engine.rewritten filter content))
  guarded : engine.isCompleteJson content = true → filter.reduceJson = false →
    (engine.applyFilter filter content failed).truncated = true →
      engine.guarded filter content failed =
        if content.utf8ByteSize ≤ maxJsonPassthrough then (content, false)
        else (s!"[JSON document omitted: {content.utf8ByteSize} bytes]", true)
  whole : engine.isCompleteJson content = true → filter.reduceJson = false →
    engine.rewritten filter content = content → filter.keepLines = [] → filter.stripLines = [] →
      filter.groupBy = none → (engine.applyFilter filter content failed).collapsed = false →
        content.utf8ByteSize ≤ maxJsonPassthrough →
          (engine.guarded filter content failed).1 = content
  capped : engine.Reduced filter content failed → ∀ n, filter.maxLines = some n →
    (linesOf (engine.applyFilter filter content failed).content).length ≤ n

variable {engine filter content failed}

/-- An output that did not collapse is what the line stages make of the rewritten text. -/
theorem applyFilter_expanded (h : (engine.applyFilter filter content failed).collapsed = false) :
    (engine.applyFilter filter content failed).truncated =
        (engine.reduceLines filter (engine.rewritten filter content)).2 ∧
      (engine.applyFilter filter content failed).content =
        if isBlank (engine.reduceLines filter (engine.rewritten filter content)).1 then
          filter.onEmpty.getD (engine.reduceLines filter (engine.rewritten filter content)).1
        else (engine.reduceLines filter (engine.rewritten filter content)).1 := by
  have hcollapse : engine.collapse filter failed (engine.rewritten filter content) = none :=
    Option.isSome_eq_false_iff.mp h |> Option.isNone_iff_eq_none.mp
  rw [rewritten] at hcollapse
  simp only [applyFilter, hcollapse, rewritten]
  exact ⟨trivial, rfl⟩

theorem applyFilter_reduced (h : engine.Reduced filter content failed) :
    (engine.applyFilter filter content failed).truncated =
        (engine.reduceLines filter (engine.rewritten filter content)).2 ∧
      (engine.applyFilter filter content failed).content =
        (engine.reduceLines filter (engine.rewritten filter content)).1 := by
  obtain ⟨htruncated, hcontent⟩ := applyFilter_expanded h.expanded
  refine ⟨htruncated, hcontent.trans ?_⟩
  obtain hnone | hshown := h.shown
  · rw [hnone, Option.getD_none, ite_self]
  · rw [hshown, if_neg Bool.false_ne_true]

theorem windows_cutHonestly (filter : CompiledFilter) : CutsHonestly fun state =>
    firstLines filter.maxLines (lastLines filter.tailLines (firstLines filter.headLines state)) :=
  ((firstLines_cutsHonestly filter.headLines).comp
    (lastLines_cutsHonestly filter.tailLines)).comp (firstLines_cutsHonestly filter.maxLines)

/-- Without groups the stages after the selection only cut. -/
theorem reduceLines_cuts (hgroup : filter.groupBy = none) (current : String) :
    engine.reduceLines filter current = (engine.selectLines filter current, false) ∨
      (engine.reduceLines filter current).2 = true ∧
        (linesOf (engine.reduceLines filter current).1).length <
          (linesOf (engine.selectLines filter current)).length := by
  rw [reduceLines, hgroup]
  exact windows_cutHonestly filter _

/-- With groups they only cut what the groups keep. -/
theorem reduceLines_grouped {gb : CompiledGroupBy} (hgroup : filter.groupBy = some gb)
    (current : String) :
    engine.reduceLines filter current =
        (engine.applyGroupBy gb (engine.selectLines filter current), false) ∨
      (engine.reduceLines filter current).2 = true := by
  rw [reduceLines, hgroup]
  exact (windows_cutHonestly filter _).imp_right And.left

theorem isBlank_of_isCompleteJson (h : engine.isCompleteJson content = true) :
    isBlank content = false := by
  rw [isCompleteJson] at h
  rw [isBlank, Bool.eq_false_iff]
  intro hempty
  rw [List.isEmpty_iff.mp hempty] at h
  simp at h

theorem selectLines_of_no_rules (hkeep : filter.keepLines = []) (hstrip : filter.stripLines = [])
    (current : String) : engine.selectLines filter current = current := by
  rw [selectLines, hkeep, hstrip]
  rfl

theorem guarded_of_truncated (hjson : engine.isCompleteJson content = true)
    (hreduce : filter.reduceJson = false)
    (htruncated : (engine.applyFilter filter content failed).truncated = true) :
    engine.guarded filter content failed =
      if content.utf8ByteSize ≤ maxJsonPassthrough then (content, false)
      else (s!"[JSON document omitted: {content.utf8ByteSize} bytes]", true) := by
  rw [guarded, jsonGuard, htruncated, hreduce, hjson]
  rfl

theorem accountsForLoss (engine : FilterEngine) (filter : CompiledFilter) (content : String)
    (failed : Bool) : engine.AccountsForLoss filter content failed where
  selected hreduced hgroup := by
    obtain ⟨htruncated, hcontent⟩ := applyFilter_reduced hreduced
    rw [htruncated, hcontent]
    obtain hsame | ⟨hflag, hfewer⟩ := @reduceLines_cuts engine _ hgroup
      (engine.rewritten filter content)
    · rw [hsame]
      exact ⟨fun _ => rfl, fun _ => rfl⟩
    · rw [hflag]
      refine ⟨nofun, fun heq => absurd hfewer ?_⟩
      rw [heq]
      exact Nat.lt_irrefl _
  grouped hreduced gb hgroup hclear := by
    obtain ⟨htruncated, hcontent⟩ := applyFilter_reduced hreduced
    rw [hcontent]
    obtain hsame | hflag := @reduceLines_grouped engine _ _ hgroup
      (engine.rewritten filter content)
    · rw [hsame]
    · rw [htruncated, hflag] at hclear
      cases hclear
  guarded := guarded_of_truncated
  whole hjson hreduce hrewritten hkeep hstrip hgroup hexpanded hsize := by
    obtain ⟨htruncated, hcontent⟩ := applyFilter_expanded hexpanded
    have hcuts := @reduceLines_cuts engine _ hgroup (engine.rewritten filter content)
    rw [selectLines_of_no_rules hkeep hstrip] at hcuts
    obtain hsame | ⟨hflag, -⟩ := hcuts
    · rw [hsame, hrewritten] at htruncated hcontent
      rw [isBlank_of_isCompleteJson hjson, if_neg Bool.false_ne_true] at hcontent
      rw [FilterEngine.guarded, jsonGuard, htruncated]
      exact hcontent
    · rw [guarded_of_truncated hjson hreduce (htruncated.trans hflag), if_pos hsize]
  capped hreduced n hmax := by
    rw [(applyFilter_reduced hreduced).2, reduceLines, hmax]
    exact length_firstLines_le n _

/-- An expression that matches its own text, and a parser that takes every text. -/
def literal : FilterEngine where
  replaceAll re text replacement := if text = re.pattern then replacement else text
  captureCount re text := if text = re.pattern then 1 else 0
  replaceAll_of_no_match re text replacement h := by
    refine if_neg fun hmatch => ?_
    rw [if_pos hmatch] at h
    cases h
  isMatch re text := occursIn re.pattern text
  findLen _ _ := none
  captureKey re text := if occursIn re.pattern text then some re.pattern else none
  parsesAsJson _ := true
  scaleWords count := count + count * 3 / 10
  percent _ _ := "0.0"

def idle : CompiledFilter where
  name := "idle"
  matchCommand := ⟨""⟩
  priority := 0
  stripAnsi := false
  reduceJson := false
  replace := []
  matchOutput := []
  stripLines := []
  keepLines := []
  groupBy := none
  headLines := none
  tailLines := none
  maxLines := none
  onEmpty := none

def blanks : Nat → String
  | 0 => ""
  | n + 1 => " " ++ blanks n

/-- An empty array with so many blanks inside. -/
def wideArray (n : Nat) : String := "[" ++ (blanks n ++ "]")

theorem utf8ByteSize_wideArray (n : Nat) : (wideArray n).utf8ByteSize = n + 2 := by
  have hblanks : (blanks n).utf8ByteSize = n := by
    induction n with
    | zero => rfl
    | succ n ih =>
        rw [blanks, String.utf8ByteSize_append, ih, Nat.add_comm]
        rfl
  rw [wideArray, String.utf8ByteSize_append, String.utf8ByteSize_append, hblanks, Nat.add_comm]
  rfl

theorem toList_wideArray (n : Nat) :
    (wideArray n).toList = '[' :: ((blanks n).toList ++ [']']) := by
  rw [wideArray, String.toList_append, String.toList_append]
  rfl

theorem isCompleteJson_wideArray (n : Nat) : literal.isCompleteJson (wideArray n) = true := by
  rw [isCompleteJson, toList_wideArray, trim_tight (by decide) (by decide), ← List.cons_append,
    List.getLast?_concat]
  simp [literal]

theorem guarded_wideArray {n : Nat} (hsize : maxJsonPassthrough < n + 2) :
    (literal.guarded { idle with maxLines := some 0 } (wideArray n) false).1 ≠ wideArray n := by
  have htruncated : (literal.applyFilter { idle with maxLines := some 0 } (wideArray n)
      false).truncated = true := by
    obtain ⟨htruncated, -⟩ := @applyFilter_expanded literal
      { idle with maxLines := some 0 } (wideArray n) false rfl
    have hlines : 0 < (linesOf (wideArray n)).length := by
      rw [linesOf, List.length_map, List.length_pos_iff]
      exact lines_ne_nil (by rw [toList_wideArray]; exact List.cons_ne_nil _ _)
    rw [htruncated, reduceLines]
    change (firstLines (some 0) (wideArray n, false)).2 = true
    simp only [firstLines, if_pos hlines]
  rw [guarded_of_truncated (isCompleteJson_wideArray _) rfl htruncated,
    utf8ByteSize_wideArray, if_neg (Nat.not_le.mpr hsize)]
  -- The second characters differ.
  intro heq
  have hsecond := congrArg (fun s : String => s.toList[1]?) heq
  have hnotice : "[JSON document omitted: ".toList = '[' :: 'J' :: "SON document omitted: ".toList := by
    decide +kernel
  cases n with
  | zero => exact absurd hsize (by decide)
  | succ n =>
      change ("[JSON document omitted: " ++ _ ++ _).toList[1]? = _ at hsecond
      rw [String.toList_append, String.toList_append, hnotice, toList_wideArray, blanks,
        String.toList_append] at hsecond
      simp at hsecond

/-- A collapse and a replacement lose lines and leave the flag clear, as a cap on groups does; the
rules that select lines cut a document, and a long one is left out. -/
theorem not_showsLoss :
    ¬ literal.ShowsLoss { idle with matchOutput := [⟨⟨"ok"⟩, "done", none⟩] } "ok" false ∧
    ¬ literal.ShowsLoss { idle with replace := [⟨⟨"foo"⟩, "bar"⟩] } "foo" false ∧
    ¬ literal.ShowsLoss { idle with groupBy := some ⟨⟨"a"⟩, 1, 1, "... \x7bn\x7d more"⟩ } "a1\na2"
      false ∧
    ¬ literal.ShowsLoss { idle with stripLines := [⟨"1"⟩] } "[\n1\n]" false ∧
    ¬ literal.ShowsLoss { idle with maxLines := some 0 } (wideArray 50000) false := by
  refine ⟨fun h => ?_, fun h => ?_, fun h => ?_, fun h => ?_, fun h => ?_⟩
  · exact absurd (h.missing "ok" (by decide +kernel) (by decide +kernel)) (by decide +kernel)
  · exact absurd (h.missing "foo" (by decide +kernel) (by decide +kernel)) (by decide +kernel)
  · exact absurd (h.missing "a2" (by decide +kernel) (by decide +kernel)) (by decide +kernel)
  · exact absurd (h.whole (by decide +kernel) rfl) (by decide +kernel)
  · exact guarded_wideArray (by decide) (h.whole (isCompleteJson_wideArray _) rfl)

end FilterEngine

end Proxy
end CleanCtx
