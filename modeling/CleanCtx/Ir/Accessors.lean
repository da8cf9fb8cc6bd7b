import CleanCtx.Ir.WireRoundTrip
import CleanCtx.Library.Text

/-!
Declared names and the accessor facts read from them (`strip_modifiers` of
`compaction/modifiers.rs`, `try_accessor_pattern` of `ir/layers/patterns.rs`). A
declared name has been trimmed and stripped of its leading modifiers, so it never
ends in white space, and an accessor fact always names its property.
-/
namespace CleanCtx

def modifiersLow : List String :=
  ["public ", "private ", "protected ", "static ", "async ", "abstract ", "override ",
    "readonly ", "virtual ", "sealed ", "new ", "extern "]

/-- One pass over the modifiers: the first that leads to a shorter text is stripped. -/
def stripPass (modifiers : List String) (current : List Char) : Option (List Char) :=
  modifiers.findSome? fun m =>
    match m.toList.isPrefixOf? current with
    | none => none
    | some rest =>
        let trimmed := rest.dropWhile isWhiteSpace
        if trimmed.length < current.length then some trimmed else none

theorem stripPass_suffix {modifiers : List String} {current rest : List Char}
    (h : stripPass modifiers current = some rest) :
    rest <:+ current ∧ rest.length < current.length := by
  obtain ⟨m, -, hm⟩ := List.exists_of_findSome?_eq_some h
  cases hbegins : m.toList.isPrefixOf? current with
  | none => simp [hbegins] at hm
  | some tail =>
      rw [hbegins] at hm
      simp only [Option.ite_none_right_eq_some, Option.some.injEq] at hm
      obtain ⟨hshorter, rfl⟩ := hm
      have htail : tail <:+ current := ⟨_, (List.append_eq_of_isPrefixOf?_eq_some hbegins)⟩
      exact ⟨(List.dropWhile_suffix _).trans htail, hshorter⟩

def stripLoop (modifiers : List String) (current : List Char) : List Char :=
  match _h : stripPass modifiers current with
  | none => current
  | some rest => stripLoop modifiers rest
termination_by current.length
decreasing_by exact (stripPass_suffix _h).2

def stripModifiers (s : List Char) (modifiers : List String) : List Char :=
  stripLoop modifiers (trim s)

def Tight (s : List Char) : Prop := ∀ c ∈ s.getLast?, isWhiteSpace c = false

theorem Tight.suffix {s t : List Char} (h : Tight s) (hsuffix : t <:+ s) : Tight t := by
  intro c hc
  obtain ⟨front, rfl⟩ := hsuffix
  refine h c ?_
  rw [List.getLast?_append, Option.mem_def.mp hc]
  rfl

theorem tight_trim (s : List Char) : Tight (trim s) := by
  intro c hc
  rw [trim, List.getLast?_reverse] at hc
  have hhead := List.head?_dropWhile_not isWhiteSpace (s.dropWhile isWhiteSpace).reverse
  rw [Option.mem_def.mp hc] at hhead
  simpa using hhead

theorem tight_stripModifiers (s : List Char) (modifiers : List String) :
    Tight (stripModifiers s modifiers) := by
  have hloop : ∀ current, Tight current → Tight (stripLoop modifiers current) := by
    intro current
    induction current using stripLoop.induct modifiers with
    | case1 current hnone =>
        intro h
        rw [stripLoop]
        split
        · exact h
        · simp_all
    | case2 current rest hsome ih =>
        intro h
        rw [stripLoop]
        split
        · simp_all
        · next rest' hsome' =>
            rw [hsome] at hsome'
            cases hsome'
            exact ih (h.suffix (stripPass_suffix hsome).1)
  exact hloop _ (tight_trim s)

/-- `name.to_lowercase().starts_with(keyword)` for a keyword of small letters and a space: no
other character has one of these as its lower case. -/
def startsLower (keyword : String) (name : List Char) : Bool :=
  (name.take keyword.length).map Char.toLower = keyword.toList

/-- The facts of `try_accessor_pattern`. -/
def tryAccessorPattern (name : List Char) : Option PatternFact :=
  if startsLower "get " name then some (.getter (String.ofList (trim (name.drop 4))))
  else if startsLower "set " name then some (.setter (String.ofList (trim (name.drop 4))))
  else none

theorem trim_ne_nil {s : List Char} (h : Tight s) (hne : s ≠ []) : trim s ≠ [] := by
  obtain ⟨front, c, rfl⟩ := (List.eq_nil_or_concat s).resolve_left hne
  have hc : isWhiteSpace c = false := h c (by simp)
  have hdrop : ∃ kept, (front ++ [c]).dropWhile isWhiteSpace = kept ++ [c] := by
    rw [List.dropWhile_append]
    split
    · exact ⟨[], by simp [hc]⟩
    · exact ⟨_, rfl⟩
  obtain ⟨kept, hkept⟩ := hdrop
  simp [trim, hkept, hc]

theorem eq_space_of_toLower {c : Char} (h : c.toLower = ' ') : c = ' ' := by
  unfold Char.toLower at h
  split at h
  · next hupper =>
      have hval := congrArg Char.val h
      have hsum : c.val + 32 = 32 := hval
      grind
  · exact h

/-- A tight name that starts with a keyword goes on after it. -/
theorem drop_ne_nil {name : List Char} {keyword : String} (h : Tight name)
    (hstart : startsLower keyword name = true) (hspace : keyword.toList.getLast? = some ' ') :
    name.drop keyword.length ≠ [] := by
  intro hnil
  have htake : name.take keyword.length = name :=
    List.take_of_length_le (List.drop_eq_nil_iff.mp hnil)
  rw [startsLower, decide_eq_true_eq, htake] at hstart
  rw [← hstart, List.getLast?_map, Option.map_eq_some_iff] at hspace
  obtain ⟨c, hc, hlower⟩ := hspace
  have hwhite := h c hc
  rw [eq_space_of_toLower hlower] at hwhite
  cases hwhite

theorem named_of_tryAccessorPattern {name : List Char} {fact : PatternFact} (h : Tight name)
    (hfact : tryAccessorPattern name = some fact) : fact.Named := by
  have hproperty : name.drop 4 ≠ [] → String.ofList (trim (name.drop 4)) ≠ "" := by
    intro hne hempty
    exact trim_ne_nil (h.suffix (List.drop_suffix 4 name)) hne (String.ofList_eq_empty_iff.mp hempty)
  unfold tryAccessorPattern at hfact
  split at hfact
  · next hget =>
      cases hfact
      exact hproperty (drop_ne_nil h hget rfl)
  · split at hfact
    · next hset =>
        cases hfact
        exact hproperty (drop_ne_nil h hset rfl)
    · cases hfact

/-- An accessor fact that the recognizer read from a declared name. -/
def PatternFact.Recognized : PatternFact → Prop
  | .getter property => ∃ declared,
      tryAccessorPattern (stripModifiers declared modifiersLow) = some (.getter property)
  | .setter property => ∃ declared,
      tryAccessorPattern (stripModifiers declared modifiersLow) = some (.setter property)
  | _ => True

theorem PatternFact.Recognized.named {fact : PatternFact} (h : fact.Recognized) : fact.Named := by
  cases fact with
  | getter | setter =>
      obtain ⟨declared, hfact⟩ := h
      exact named_of_tryAccessorPattern (tight_stripModifiers _ _) hfact
  | _ => trivial

end CleanCtx
