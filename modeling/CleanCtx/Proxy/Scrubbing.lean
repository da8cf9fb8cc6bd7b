import CleanCtx.Proxy.Scrub

/-!
What scrubbing removes. The scrubber is compared with the plain application of
every rule in order, after each rule of the set: the pre-filter and the length
comparison are shortcuts that must not skip a rule that changes the text.
-/
namespace CleanCtx
namespace Proxy
namespace RegexEngine

variable (engine : RegexEngine)

def replace (rule : ScrubRule) (text : String) : String :=
  engine.replaceAll rule.re text rule.replacement

def replaceInOrder (rules : List ScrubRule) (content : String) : String :=
  rules.foldl (fun text rule => engine.replace rule text) content

/-- After each rule the text is what the rules so far make of it, so that none is skipped, and
there are hits exactly when the text differs from the original. -/
def ScrubsExactly (rules : List ScrubRule) (content : String) : Prop :=
  ∀ done, done <+: rules →
    (engine.scrubWith done content).content = engine.replaceInOrder done content ∧
      ((engine.scrubWith done content).hits ≠ [] ↔
        (engine.scrubWith done content).content ≠ content)

/-- The rule that comes after `done` changes the text it is given. -/
def ChangesAfter (content : String) (done : List ScrubRule) (rule : ScrubRule) : Prop :=
  engine.replace rule (engine.replaceInOrder done content) ≠ engine.replaceInOrder done content

def Untouched (rules : List ScrubRule) (content : String) : Prop :=
  ∀ done, done <+: rules → engine.replaceInOrder done content = content

/-- Every rule that changes the text it is given changes its length. -/
def ChangesLength (rules : List ScrubRule) (content : String) : Prop :=
  ∀ done rule, done ++ [rule] <+: rules → engine.ChangesAfter content done rule →
    (engine.replaceInOrder (done ++ [rule]) content).utf8ByteSize ≠
      (engine.replaceInOrder done content).utf8ByteSize

/-- Once a rule has changed the text, no rule brings the original back. -/
def NeverRestores (rules : List ScrubRule) (content : String) : Prop :=
  ∀ done rule later, done ++ [rule] <+: later → later <+: rules →
    engine.ChangesAfter content done rule → engine.replaceInOrder later content ≠ content

variable {engine} {rules done : List ScrubRule} {rule : ScrubRule} {content : String}

theorem replaceInOrder_concat : engine.replaceInOrder (done ++ [rule]) content =
    engine.replace rule (engine.replaceInOrder done content) :=
  List.foldl_concat ..

theorem scrubWith_of_passed (h : mightContainSecret content = true) :
    engine.scrubWith rules content =
      rules.foldl engine.applyRule { content, hits := [] } := by
  have hcontent : content ≠ "" := by
    rintro rfl
    revert h
    decide +kernel
  rw [scrubWith, if_neg (by simpa [h] using hcontent)]

theorem scrubWith_of_blocked (h : mightContainSecret content = false) :
    engine.scrubWith rules content = { content, hits := [] } := by
  rw [scrubWith, if_pos (by simp [h])]

theorem scrubWith_concat (h : mightContainSecret content = true) :
    engine.scrubWith (done ++ [rule]) content =
      engine.applyRule (engine.scrubWith done content) rule := by
  rw [scrubWith_of_passed h, scrubWith_of_passed h, List.foldl_concat]

theorem hits_applyRule (state : ScrubResult) : state.hits <+: (engine.applyRule state rule).hits := by
  rw [applyRule]
  split
  · exact List.prefix_append ..
  · exact List.prefix_refl _

theorem hits_prefix (h : mightContainSecret content = true) {later : List ScrubRule}
    (hlater : done <+: later) :
    (engine.scrubWith done content).hits <+: (engine.scrubWith later content).hits := by
  obtain ⟨rest, rfl⟩ := hlater
  induction rest using List.reverseRecOn with
  | nil => rw [List.append_nil]
  | append_singleton rest rule ih =>
      rw [← List.append_assoc, scrubWith_concat h]
      exact ih.trans (hits_applyRule _)

/-- A change of length is found, and then there is a match to report. -/
theorem applyRule_of_length {state : ScrubResult}
    (h : (engine.replace rule state.content).utf8ByteSize ≠ state.content.utf8ByteSize) :
    (engine.applyRule state rule).content = engine.replace rule state.content ∧
      (engine.applyRule state rule).hits ≠ [] := by
  have hmatch : engine.captureCount rule.re state.content ≠ 0 := by
    intro hnone
    rw [replace, engine.replaceAll_of_no_match _ _ _ hnone] at h
    exact h rfl
  have hsize : (engine.replaceAll rule.re state.content rule.replacement).utf8ByteSize ≠
      state.content.utf8ByteSize := h
  rw [applyRule, if_pos hsize]
  exact ⟨rfl, by simp [hmatch]⟩

theorem applyRule_of_same_length {state : ScrubResult}
    (h : (engine.replace rule state.content).utf8ByteSize = state.content.utf8ByteSize) :
    engine.applyRule state rule = state :=
  if_neg (not_not_intro h)

/-- With every change visible in the length, the loop follows the plain replacements, and it has
hits exactly when some rule changed the text. -/
theorem scrubWith_of_changesLength (hpass : mightContainSecret content = true)
    (hlength : engine.ChangesLength rules content) (hdone : done <+: rules) :
    (engine.scrubWith done content).content = engine.replaceInOrder done content ∧
      ((engine.scrubWith done content).hits = [] → engine.replaceInOrder done content = content) ∧
      ((engine.scrubWith done content).hits ≠ [] →
        ∃ first rule, first ++ [rule] <+: done ∧ engine.ChangesAfter content first rule) := by
  induction done using List.reverseRecOn with
  | nil =>
      rw [scrubWith_of_passed hpass]
      exact ⟨rfl, fun _ => rfl, fun hhits => absurd rfl hhits⟩
  | append_singleton done rule ih =>
      have hsub : done <+: done ++ [rule] := List.prefix_append ..
      obtain ⟨hcontent, hnone, hsome⟩ := ih (hsub.trans hdone)
      rw [scrubWith_concat hpass, replaceInOrder_concat]
      by_cases hchange : engine.ChangesAfter content done rule
      · have hsize := hlength done rule hdone hchange
        rw [replaceInOrder_concat, ← hcontent] at hsize
        obtain ⟨happlied, hhit⟩ := applyRule_of_length hsize
        refine ⟨happlied.trans (by rw [hcontent]), fun hempty => absurd hempty hhit, fun _ => ?_⟩
        exact ⟨done, rule, List.prefix_refl _, hchange⟩
      · have hsame : engine.replace rule (engine.replaceInOrder done content) =
            engine.replaceInOrder done content := not_not.mp hchange
        rw [applyRule_of_same_length (by rw [hcontent, hsame]), hsame]
        refine ⟨hcontent, hnone, fun hhits => ?_⟩
        obtain ⟨first, earlier, hearlier, hfirst⟩ := hsome hhits
        exact ⟨first, earlier, hearlier.trans hsub, hfirst⟩

theorem Untouched.not_changesAfter (h : engine.Untouched rules content)
    (hdone : done ++ [rule] <+: rules) : ¬ engine.ChangesAfter content done rule := by
  rw [ChangesAfter, ← replaceInOrder_concat, h _ hdone, h _ ((List.prefix_append ..).trans hdone)]
  exact not_not_intro rfl

theorem scrubsExactly_of_passed (hpass : mightContainSecret content = true)
    (hlength : engine.ChangesLength rules content) (hnever : engine.NeverRestores rules content) :
    engine.ScrubsExactly rules content := by
  intro done hdone
  obtain ⟨hcontent, hnone, hsome⟩ := scrubWith_of_changesLength hpass hlength hdone
  refine ⟨hcontent, fun hhits => ?_, fun hchanged hhits => hchanged (hcontent.trans (hnone hhits))⟩
  obtain ⟨first, rule, hfirst, hchange⟩ := hsome hhits
  rw [hcontent]
  exact hnever first rule done hfirst hdone hchange

theorem ScrubsExactly.changesLength (h : engine.ScrubsExactly rules content)
    (hpass : mightContainSecret content = true) : engine.ChangesLength rules content := by
  intro done rule hdone hchange hsize
  have hbefore := (h done ((List.prefix_append ..).trans hdone)).1
  have hafter := (h _ hdone).1
  rw [replaceInOrder_concat, ← hbefore] at hsize
  rw [scrubWith_concat hpass, applyRule_of_same_length hsize, hbefore,
    replaceInOrder_concat] at hafter
  exact hchange hafter.symm

/-- Scrubbing agrees with the plain replacements, rule for rule, exactly when there is nothing to
replace, or the pre-filter lets the text pass, every change shows in the length and none is
undone. -/
theorem scrubsExactly_iff : engine.ScrubsExactly rules content ↔
    engine.Untouched rules content ∨
      mightContainSecret content = true ∧ engine.ChangesLength rules content ∧
        engine.NeverRestores rules content := by
  refine ⟨fun h => ?_, fun h => ?_⟩
  · cases hpass : mightContainSecret content with
    | false =>
        refine .inl fun done hdone => ?_
        rw [← (h done hdone).1, scrubWith_of_blocked hpass]
    | true =>
        have hlength : engine.ChangesLength rules content := h.changesLength hpass
        refine .inr ⟨rfl, hlength, fun done rule later hstep hlater hchange => ?_⟩
        have hbefore := (h done (((List.prefix_append ..).trans hstep).trans hlater)).1
        have hsize := hlength done rule (hstep.trans hlater) hchange
        rw [replaceInOrder_concat, ← hbefore] at hsize
        have hhit : (engine.scrubWith (done ++ [rule]) content).hits ≠ [] := by
          rw [scrubWith_concat hpass]
          exact (applyRule_of_length hsize).2
        have hhits : (engine.scrubWith later content).hits ≠ [] := fun hnone =>
          hhit (List.prefix_nil.mp (hnone ▸ hits_prefix hpass hstep))
        rw [← (h later hlater).1]
        exact (h later hlater).2.mp hhits
  · rcases h with huntouched | ⟨hpass, hlength, hnever⟩
    · cases hpass : mightContainSecret content with
      | false =>
          intro done hdone
          rw [scrubWith_of_blocked hpass, huntouched done hdone]
          exact ⟨rfl, by simp⟩
      | true =>
          refine scrubsExactly_of_passed hpass (fun done rule hdone hchange => ?_)
            fun done rule later hstep hlater hchange => ?_
          · exact absurd hchange (huntouched.not_changesAfter hdone)
          · exact absurd hchange (huntouched.not_changesAfter (hstep.trans hlater))
    · exact scrubsExactly_of_passed hpass hlength hnever

/-- An assignment whose value is as long as the text that replaces it. -/
def sameLengthSecret : String := "password=abcdefghij"

/-- The engine on that assignment: of the rule set only the assignment rule matches, once. -/
def assignmentEngine : RegexEngine where
  replaceAll re text _ :=
    if re = secretAssignmentRe ∧ text = sameLengthSecret then "password=[REDACTED]" else text
  captureCount re text := if re = secretAssignmentRe ∧ text = sameLengthSecret then 1 else 0
  replaceAll_of_no_match re text _ h := by
    refine if_neg fun hmatch => ?_
    rw [if_pos hmatch] at h
    cases h

theorem scrubSecrets_ne_replaceInOrder :
    (assignmentEngine.scrubSecrets sameLengthSecret).content ≠
      assignmentEngine.replaceInOrder scrubRules sameLengthSecret := by
  have hkept : (assignmentEngine.scrubSecrets sameLengthSecret).content = sameLengthSecret := by
    decide +kernel
  have hplain : assignmentEngine.replaceInOrder scrubRules sameLengthSecret =
      "password=[REDACTED]" := by
    decide +kernel
  rw [hkept, hplain]
  decide +kernel

end RegexEngine
end Proxy
end CleanCtx
