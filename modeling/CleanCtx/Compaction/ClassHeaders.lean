import CleanCtx.Compaction.ClassNames

/-!
Which headers a class name is read from. The extraction reads a name exactly
where the line of the declaration is a run of listed modifiers, a listed keyword
or none, the name, and an end that the tokens respect: white space, type
parameters, a colon on its own, or a parameter list that closes the header.
-/
namespace CleanCtx
namespace Compaction

/-- Listed modifiers in front of a text, each with its blank and any white space behind it. -/
inductive ModifierRun : List Char → List Char → Prop
  | nil {rest : List Char} : firstPrefix modifiersClass rest = none → ModifierRun rest rest
  | cons {m gap s rest : List Char} : firstPrefix modifiersClass (m ++ (gap ++ s)) = some m →
      Blank gap → StartsSolid s → ModifierRun s rest → ModifierRun (m ++ (gap ++ s)) rest

/-- A listed keyword in front of a text, with its blank and any white space behind it, or none of
them. -/
inductive KeywordThen : List Char → List Char → Prop
  | keyword {k gap rest : List Char} : firstPrefix classKeywords (k ++ (gap ++ rest)) = some k →
      Blank gap → StartsSolid rest → KeywordThen (k ++ (gap ++ rest)) rest
  | bare {rest : List Char} : firstPrefix classKeywords rest = none → KeywordThen rest rest

def attached (tail : List Char) : List Char :=
  tail.takeWhile fun c => !isWhiteSpace c && c ≠ '<'

/-- What may follow a name: colons and closing braces only before white space, type parameters or
the end; or a parenthesis group, found as the first parameter list, that ends the header. -/
def NameEnds (name tail : List Char) : Prop :=
  (∀ c ∈ attached tail, isStructural c = true) ∨
    tail.head? = some '(' ∧ ∃ close, findMethodParams (name ++ tail) = some (name.length, close) ∧
      closesOut ((name ++ tail).drop (close + 1)) = true

/-- The line of a declaration names an identifier. -/
def HeaderReads (line name : List Char) : Prop :=
  ∃ header tail, ModifierRun line header ∧ KeywordThen header (name ++ tail) ∧ NameEnds name tail

def isPlain (c : Char) : Bool :=
  !isWhiteSpace c && !(['<', '{', '}', ':', '(', ')', '[', ']', '"', '\''].contains c)

def IsIdentifier (name : List Char) : Prop := name ≠ [] ∧ ∀ c ∈ name, isPlain c = true

section Prefixes

theorem firstPrefix_some {prefixes : List (List Char)} {s p : List Char}
    (h : firstPrefix prefixes s = some p) : p ∈ prefixes ∧ ∃ rest, s = p ++ rest := by
  have hprefix := List.find?_some (p := fun q : List Char => q.isPrefixOf s) h
  obtain ⟨rest, hrest⟩ := List.isPrefixOf_iff_prefix.mp hprefix
  exact ⟨List.mem_of_find?_eq_some h, rest, hrest.symm⟩

theorem modifier_ne_nil {m : List Char} (h : m ∈ modifiersClass) : m ≠ [] := by
  revert m
  decide

theorem exists_gap (s : List Char) : ∃ gap, Blank gap ∧ s = gap ++ trimStart s :=
  ⟨s.takeWhile isWhiteSpace, fun _ => List.mem_takeWhile_imp,
    (List.takeWhile_append_dropWhile).symm⟩

theorem trimStart_gap {gap s : List Char} (hgap : Blank gap) (hs : StartsSolid s) :
    trimStart (gap ++ s) = s := by
  unfold trimStart
  rw [List.dropWhile_append_of_pos hgap, hs.dropWhile]

/-- The loop strips a run of modifiers, and the text itself is fuel enough. -/
theorem stripModifiersFrom_iff {rest : List Char} (fuel : Nat) : ∀ s : List Char,
    s.length ≤ fuel → (stripModifiersFrom modifiersClass fuel s = rest ↔ ModifierRun s rest) := by
  induction fuel with
  | zero =>
      intro s hs
      obtain rfl := List.eq_nil_of_length_eq_zero (Nat.le_zero.mp hs)
      rw [stripModifiersFrom]
      constructor
      · rintro rfl
        exact .nil (by decide)
      · intro hrun
        generalize hwhole : ([] : List Char) = whole at hrun
        cases hrun with
        | nil => rfl
        | cons hfirst =>
            have hnil := (List.append_eq_nil_iff.mp hwhole.symm).1
            exact absurd hnil (modifier_ne_nil (firstPrefix_some hfirst).1)
  | succ fuel ih =>
      intro s hs
      rw [stripModifiersFrom]
      cases hfirst : firstPrefix modifiersClass s with
      | none =>
          constructor
          · rintro rfl
            exact .nil hfirst
          · intro hrun
            cases hrun with
            | nil => rfl
            | cons hsome =>
                rw [hsome] at hfirst
                cases hfirst
      | some m =>
          obtain ⟨hmem, after, rfl⟩ := firstPrefix_some hfirst
          have hpos := List.length_pos_of_ne_nil (modifier_ne_nil hmem)
          obtain ⟨gap, hgap, hafter⟩ := exists_gap after
          have hsolid : StartsSolid (trimStart after) := startsSolid_dropWhile after
          have hlength : (trimStart after).length ≤ fuel := by
            have hdrop := (after.dropWhile_sublist isWhiteSpace).length_le
            rw [List.length_append] at hs
            unfold trimStart
            omega
          simp only [List.drop_left]
          rw [ih (trimStart after) hlength]
          constructor
          · intro hrun
            rw [hafter] at hfirst ⊢
            exact .cons hfirst hgap hsolid hrun
          · intro hrun
            generalize hwhole : m ++ after = whole at hrun hfirst
            cases hrun with
            | nil hnone =>
                rw [hnone] at hfirst
                cases hfirst
            | @cons m' gap' s' _ hfirst' hgap' hs' hrun =>
                rw [hfirst'] at hfirst
                cases hfirst
                have heq := List.append_cancel_left hwhole
                rw [heq, trimStart_gap hgap' hs']
                exact hrun

theorem afterKeyword_iff {s rest : List Char} (hstart : StartsSolid s) (hend : EndsSolid s) :
    afterKeyword s = rest ↔ KeywordThen s rest := by
  unfold afterKeyword
  cases hfirst : firstPrefix classKeywords s with
  | none =>
      simp only [trim_of_solid hstart hend]
      constructor
      · rintro rfl
        exact .bare hfirst
      · intro hthen
        cases hthen with
        | bare => rfl
        | keyword hsome =>
            rw [hsome] at hfirst
            cases hfirst
  | some k =>
      obtain ⟨-, after, rfl⟩ := firstPrefix_some hfirst
      obtain ⟨gap, hgap, hafter⟩ := exists_gap after
      simp only [List.drop_left, hend.of_append.trim_eq]
      constructor
      · rintro rfl
        have hsolid : StartsSolid (trimStart after) := startsSolid_dropWhile after
        have hthen : KeywordThen (k ++ (gap ++ trimStart after)) (trimStart after) :=
          .keyword (hafter ▸ hfirst) hgap hsolid
        rwa [← hafter] at hthen
      · intro hthen
        generalize hwhole : k ++ after = whole at hthen hfirst
        cases hthen with
        | bare hnone =>
            rw [hnone] at hfirst
            cases hfirst
        | @keyword k' gap' _ hfirst' hgap' hrest =>
            rw [hfirst'] at hfirst
            cases hfirst
            rw [List.append_cancel_left hwhole]
            exact trimStart_gap hgap' hrest

theorem ModifierRun.solid {s rest : List Char} (h : ModifierRun s rest) (hstart : StartsSolid s)
    (hend : EndsSolid s) : StartsSolid rest ∧ EndsSolid rest := by
  induction h with
  | nil => exact ⟨hstart, hend⟩
  | cons _ _ hs _ ih => exact ih hs hend.of_append.of_append

theorem KeywordThen.solid {s rest : List Char} (h : KeywordThen s rest) (hstart : StartsSolid s)
    (hend : EndsSolid s) : StartsSolid rest ∧ EndsSolid rest := by
  cases h with
  | keyword _ _ hs => exact ⟨hs, hend.of_append.of_append⟩
  | bare => exact ⟨hstart, hend⟩

end Prefixes

section Parameters

theorem isNameAnchored_cases {before : List Char} (h : isNameAnchored before = true) :
    ∃ c rest, before.dropWhile isAsciiWhiteSpace = c :: rest ∧ (c = '>' ∨ isNameByte c = true) := by
  unfold isNameAnchored at h
  split at h
  · cases h
  · rename_i rest hdrop
    exact ⟨'>', rest, hdrop, .inl rfl⟩
  · rename_i c rest _ hdrop
    split at h
    · rename_i hc
      exact ⟨c, rest, hdrop, .inr hc⟩
    · cases h

/-- The group that is found opens with a parenthesis behind a name and closes later. -/
theorem findParamsFrom_spec {opening close : Nat} (rest : List Char) :
    ∀ depth start skip before,
      (∀ s, start = some s → before.reverse[s]? = some '(' ∧
        isNameAnchored (before.reverse.take s).reverse = true) →
      findParamsFrom depth start skip before rest = some (opening, close) →
      (before.reverse ++ rest)[opening]? = some '(' ∧
        isNameAnchored ((before.reverse ++ rest).take opening).reverse = true ∧
        opening < close ∧ ((before.reverse ++ rest)[close]? = some ')' ∨
          (before.reverse ++ rest)[close]? = some ']') := by
  induction rest with
  | nil =>
      intro depth start skip before _ h
      cases h
  | cons c rest ih =>
      intro depth start skip before hstart h
      have hshift : before.reverse ++ c :: rest = (c :: before).reverse ++ rest := by
        rw [List.reverse_cons, List.append_assoc, List.singleton_append]
      have hkeep : ∀ s, start = some s → (c :: before).reverse[s]? = some '(' ∧
          isNameAnchored ((c :: before).reverse.take s).reverse = true := by
        intro s hs
        obtain ⟨hopen, hanchor⟩ := hstart s hs
        have hlt : s < before.reverse.length := (List.getElem?_eq_some_iff.mp hopen).1
        rw [List.reverse_cons, List.getElem?_append_left hlt, List.take_append_of_le_length hlt.le]
        exact ⟨hopen, hanchor⟩
      have hnone : ∀ s, (none : Option Nat) = some s → (c :: before).reverse[s]? = some '(' ∧
          isNameAnchored ((c :: before).reverse.take s).reverse = true := nofun
      have hhere : (c :: before).reverse[before.length]? = some c := by
        rw [List.reverse_cons, List.getElem?_append_right (by simp), List.length_reverse,
          Nat.sub_self]
        rfl
      rw [hshift]
      unfold findParamsFrom at h
      cases skip with
      | succ skip => exact ih _ _ _ _ hkeep h
      | zero =>
          simp only at h
          by_cases hquote : isQuote c = true
          · rw [if_pos hquote] at h
            exact ih _ _ _ _ hkeep h
          rw [if_neg hquote] at h
          by_cases hopen : c = '('
          · rw [if_pos hopen] at h
            refine ih _ _ _ _ ?_ h
            intro s hs
            split at hs
            · split at hs
              · rename_i hanchor
                cases hs
                refine ⟨hopen ▸ hhere, ?_⟩
                rw [List.reverse_cons, List.take_append_of_le_length (by simp),
                  ← List.length_reverse, List.take_length, List.reverse_reverse]
                exact hanchor
              · cases hs
            · exact hkeep s hs
          rw [if_neg hopen] at h
          by_cases hbracket : c = '['
          · rw [if_pos hbracket] at h
            exact ih _ _ _ _ hkeep h
          rw [if_neg hbracket] at h
          by_cases hclose : c = ')' ∨ c = ']'
          · rw [if_pos hclose] at h
            split at h
            · split at h
              · split at h
                · rename_i hfound
                  cases h
                  obtain ⟨hparen, hanchor⟩ := hkeep _ rfl
                  have hlt : opening < (c :: before).reverse.length :=
                    (List.getElem?_eq_some_iff.mp hparen).1
                  have hlt' : before.length < (c :: before).reverse.length := by simp
                  rw [List.getElem?_append_left hlt, List.getElem?_append_left hlt', hhere,
                    List.take_append_of_le_length hlt.le]
                  refine ⟨hparen, hanchor, hfound.1, ?_⟩
                  obtain rfl | rfl := hclose
                  · exact .inl rfl
                  · exact .inr rfl
                · exact ih _ _ _ _ hnone h
              · exact ih _ _ _ _ hnone h
            · exact ih _ _ _ _ hkeep h
          · rw [if_neg hclose] at h
            exact ih _ _ _ _ hkeep h

theorem findMethodParams_spec {sig : List Char} {opening close : Nat}
    (h : findMethodParams sig = some (opening, close)) :
    sig[opening]? = some '(' ∧ isNameAnchored (sig.take opening).reverse = true ∧
      opening < close ∧ (sig[close]? = some ')' ∨ sig[close]? = some ']') :=
  findParamsFrom_spec sig 0 none 0 [] nofun h

end Parameters

end Compaction
end CleanCtx
