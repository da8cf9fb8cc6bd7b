import Mathlib.Data.Prod.Basic
import CleanCtx.Ir.TypeAliases

/-!
When the type-alias pass can be undone from the instructions it appends. A type is
restored by mapping its words through the appended aliases. That takes an alias
of its own for every original that is used, an original that the footer carries
whole, occurrences that do not touch, and no alias among the other words.
-/
namespace CleanCtx
namespace TypeAliases

open Piece

section Scan

variable {pairs : List (String × String)} {previous : Option Char} {text : List Char} {n : Nat}

theorem isWord_of_isValidAlias {token : String} (h : isValidAlias token = true) :
    IsWord isBoundaryChar token.toList := by
  rw [isValidAlias] at h
  split at h
  · rename_i rest heq
    rw [heq]
    simp only [Bool.and_eq_true, List.all_eq_true, Bool.or_eq_true, decide_eq_true_eq] at h
    refine ⟨List.cons_ne_nil _ _, List.forall_mem_cons.mpr ⟨by decide, fun c hc => ?_⟩⟩
    obtain halnum | rfl := h.1.2 c hc
    · simp [isBoundaryChar, halnum]
    · decide
  · cases h

theorem mem_candidates {aliases : Std.TreeMap String String} {p : String × String} :
    p ∈ candidates aliases ↔ aliases[p.1]? = some p.2 ∧ isValidAlias p.2 = true ∧
      minOriginalLen ≤ p.1.utf8ByteSize := by
  rw [candidates, (List.mergeSort_perm _ _).mem_iff, List.mem_filter,
    Std.TreeMap.mem_toList_iff_getElem?_eq_some, Bool.and_eq_true, decide_eq_true_eq]

/-- Originals are not empty, and aliases are words. -/
structure Usable (pairs : List (String × String)) : Prop where
  original : ∀ p ∈ pairs, p.1.toList ≠ []
  token : ∀ p ∈ pairs, IsWord isBoundaryChar p.2.toList

theorem usable_candidates (aliases : Std.TreeMap String String) : Usable (candidates aliases) where
  original p hp := by
    intro hempty
    have hlen := (mem_candidates.mp hp).2.2
    rw [String.toList_eq_nil_iff.mp hempty] at hlen
    exact absurd hlen (by decide)
  token p hp := isWord_of_isValidAlias (mem_candidates.mp hp).2.1

/-- Every occurrence that is replaced is one of a pair. -/
theorem mem_of_replaced {original token : List Char}
    (h : replaced original token ∈ scanFrom pairs n previous text) :
    (String.ofList original, String.ofList token) ∈ pairs := by
  induction text generalizing n previous with
  | nil => cases h
  | cons c rest ih =>
      cases n with
      | succ n => exact ih h
      | zero =>
          rw [scanFrom] at h
          split at h
          · rename_i original' token' hmatch
            obtain heq | hrest := List.mem_cons.mp h
            · cases heq
              rw [String.ofList_toList, String.ofList_toList]
              exact List.mem_of_find?_eq_some hmatch
            · exact ih hrest
          · exact ih ((List.mem_cons.mp h).resolve_left nofun)

theorem mem_uses {pieces : List Piece} {p : String × String} :
    p ∈ uses pieces ↔ replaced p.1.toList p.2.toList ∈ pieces := by
  rw [uses, List.mem_filterMap]
  constructor
  · rintro ⟨piece, hpiece, h⟩
    cases piece with
    | kept => cases h
    | replaced original token =>
        cases h
        rwa [String.toList_ofList, String.toList_ofList]
  · exact fun h => ⟨_, h, by simp⟩

/-- The outcome of a match: the original stands here, between boundaries. -/
theorem matchAt_spec {p : String × String} (h : matchAt pairs previous text = some p) :
    (∃ rest, text = p.1.toList ++ rest ∧ isBoundaryAfter rest = true) ∧
      isBoundaryBefore previous = true := by
  have hfound := List.find?_some h
  simp only [Bool.and_eq_true, List.isPrefixOf_iff_prefix] at hfound
  obtain ⟨⟨⟨rest, rfl⟩, hbefore⟩, hafter⟩ := hfound
  rw [List.drop_left] at hafter
  exact ⟨⟨rest, rfl, hafter⟩, hbefore⟩

theorem before_scanFrom (husable : Usable pairs) (n : Nat) (previous : Option Char)
    (text : List Char) : (scanFrom pairs n previous text).flatMap before = text.drop n := by
  induction text generalizing n previous with
  | nil => rw [scanFrom, List.drop_nil, List.flatMap_nil]
  | cons c rest ih =>
      cases n with
      | succ n => exact ih n (some c)
      | zero =>
          rw [scanFrom]
          split
          · rename_i original token hmatch
            obtain ⟨⟨after, heq, -⟩, -⟩ := matchAt_spec hmatch
            have hne := husable.original _ (List.mem_of_find?_eq_some hmatch)
            obtain ⟨d, tail, hcons⟩ := List.exists_cons_of_ne_nil hne
            dsimp only at heq hcons
            rw [List.flatMap_cons, ih, hcons, List.length_cons, Nat.add_sub_cancel, List.drop_zero]
            rw [hcons, List.cons_append, List.cons.injEq] at heq
            rw [heq.2, List.drop_left, ← heq.2, before, heq.1, heq.2]
            rfl
          · rw [List.flatMap_cons, ih]
            rfl

theorem drop_pred_of_matchAt (husable : Usable pairs) {c : Char} {rest : List Char}
    {p : String × String} (h : matchAt pairs previous (c :: rest) = some p) :
    isBoundaryAfter (rest.drop (p.1.toList.length - 1)) = true := by
  obtain ⟨⟨after, heq, hafter⟩, -⟩ := matchAt_spec h
  obtain ⟨d, tail, hcons⟩ := List.exists_cons_of_ne_nil
    (husable.original _ (List.mem_of_find?_eq_some h))
  rw [hcons, List.cons_append, List.cons.injEq] at heq
  rwa [hcons, heq.2, List.length_cons, Nat.add_sub_cancel, List.drop_left]

/-- What follows a match starts with a boundary, unless another match follows at once. -/
theorem ends_scanFrom (husable : Usable pairs) (hafter : isBoundaryAfter (text.drop n) = true)
    (hnext : ∀ piece ∈ (scanFrom pairs n previous text).head?, piece.isReplaced = false) :
    Ends isBoundaryChar (scanFrom pairs n previous text) := by
  have hbefore := before_scanFrom husable n previous text
  cases hpieces : scanFrom pairs n previous text with
  | nil => trivial
  | cons piece rest =>
      rw [hpieces] at hnext hbefore
      cases piece with
      | kept c =>
          rw [← hbefore] at hafter
          exact hafter
      | replaced => exact absurd (hnext _ rfl) (by simp [isReplaced])

/-- Matches that do not touch stand between kept boundaries. -/
theorem delimited_scanFrom (husable : Usable pairs) (n : Nat) (previous : Option Char)
    (text : List Char) (hapart : Spaced (scanFrom pairs n previous text)) :
    ∃ free, (n = 0 → free = isBoundaryBefore previous) ∧
      Delimited isBoundaryChar free (scanFrom pairs n previous text) := by
  induction text generalizing n previous with
  | nil => exact ⟨_, fun _ => rfl, trivial⟩
  | cons c rest ih =>
      cases n with
      | succ n =>
          obtain ⟨free, -, hdelimited⟩ := ih n (some c) hapart
          exact ⟨free, nofun, hdelimited⟩
      | zero =>
          refine ⟨_, fun _ => rfl, ?_⟩
          rw [scanFrom] at hapart ⊢
          split at hapart
          · rename_i original token hmatch
            obtain ⟨hnext, hrest⟩ := hapart
            obtain ⟨free, -, hdelimited⟩ := ih _ (some c) hrest
            have hafter := drop_pred_of_matchAt husable hmatch
            dsimp only at hafter
            have hends : Ends isBoundaryChar
                (scanFrom pairs (original.toList.length - 1) (some c) rest) :=
              ends_scanFrom husable hafter (hnext rfl)
            exact ⟨(matchAt_spec hmatch).2, hends, hdelimited.of_ends hends⟩
          · obtain ⟨free, hfree, hdelimited⟩ := ih 0 (some c) hapart.2
            rw [hfree rfl] at hdelimited
            exact hdelimited

theorem delimited_scan {body : String} (husable : Usable pairs) (hapart : Spaced (scan pairs body)) :
    Delimited isBoundaryChar true (scan pairs body) := by
  obtain ⟨free, hfree, hdelimited⟩ := delimited_scanFrom husable 0 none body.toList hapart
  rw [hfree rfl] at hdelimited
  exact hdelimited

def Passed (pairs : List (String × String)) (text : List Char) : Prop :=
  ∃ previous, isBoundaryBefore previous = true ∧ matchAt pairs previous text = none

theorem ne_of_passed {w rest : List Char} (h : Passed pairs (w ++ rest))
    (hends : isBoundaryAfter rest = true) : ∀ p ∈ pairs, p.1.toList ≠ w := by
  rintro p hp rfl
  obtain ⟨previous, hbefore, hnone⟩ := h
  have hfound := List.find?_eq_none.mp hnone p hp
  simp only [List.drop_left, hends, hbefore, Bool.and_true, List.isPrefixOf_iff_prefix] at hfound
  exact hfound (List.prefix_append _ _)

theorem ne_of_flush {word w : List Char} (rest : List Char) (hends : isBoundaryAfter rest = true)
    (hpassed : word ≠ [] → Passed pairs (word.reverse ++ rest))
    (hw : .word w ∈ (flush word).map Item.word) : ∀ p ∈ pairs, p.1.toList ≠ w := by
  rw [flush] at hw
  split at hw
  · cases hw
  · rename_i hne
    cases List.mem_singleton.mp hw
    exact ne_of_passed (hpassed (by simpa using hne)) hends

/-- A word that the scan kept is no original. The word read so far starts where a word can start,
and nothing was replaced there. -/
theorem ne_of_word_mem (husable : Usable pairs) {word w : List Char}
    (hstart : word = [] →
      n = 0 ∧ isBoundaryBefore previous = true ∨ isBoundaryAfter (text.drop n) = true)
    (hpassed : word ≠ [] →
      n = 0 ∧ isBoundaryBefore previous = false ∧ Passed pairs (word.reverse ++ text))
    (hw : .word w ∈ itemsFrom isBoundaryChar word (scanFrom pairs n previous text)) :
    ∀ p ∈ pairs, p.1.toList ≠ w := by
  induction text generalizing n previous word with
  | nil => exact ne_of_flush [] rfl (fun hne => (hpassed hne).2.2) hw
  | cons c rest ih =>
      cases n with
      | succ n =>
          have hword : word = [] := by
            by_contra hne
            exact Nat.succ_ne_zero n (hpassed hne).1
          refine ih (fun hnil => .inr ?_) (fun hne => absurd hword hne) hw
          exact (hstart hnil).resolve_left fun h => Nat.succ_ne_zero n h.1
      | zero =>
          rw [scanFrom] at hw
          split at hw
          · rename_i original token hmatch
            have hword : word = [] := by
              by_contra hne
              have hbefore := (matchAt_spec hmatch).2
              rw [(hpassed hne).2.1] at hbefore
              cases hbefore
            subst hword
            have hrest : .word w ∈ itemsFrom isBoundaryChar []
                (scanFrom pairs (original.toList.length - 1) (some c) rest) := by
              rw [itemsFrom] at hw
              simpa [flush] using hw
            have hends := drop_pred_of_matchAt husable hmatch
            dsimp only at hends
            generalize original.toList.length - 1 = m at hends hrest
            exact ih (fun _ => Or.inr hends) (fun hne => (hne rfl).elim) hrest
          · rename_i hmatch
            rw [itemsFrom] at hw
            cases hc : isBoundaryChar c with
            | true =>
                rw [if_pos hc] at hw
                obtain hw | hw := List.mem_append.mp hw
                · exact ne_of_flush (c :: rest) hc (fun hne => (hpassed hne).2.2) hw
                · have hrest := (List.mem_cons.mp hw).resolve_left Item.noConfusion
                  have hfree : isBoundaryBefore (some c) = true := hc
                  exact ih (fun _ => Or.inl ⟨rfl, hfree⟩) (fun hne => (hne rfl).elim) hrest
            | false =>
                rw [if_neg (by simp [hc])] at hw
                have hbound : isBoundaryBefore (some c) = false := hc
                refine ih (fun hnil => (List.cons_ne_nil _ _ hnil).elim)
                  (fun _ => ⟨rfl, hbound, ?_⟩) hw
                rw [List.reverse_cons, List.append_assoc]
                by_cases hne : word = []
                · subst hne
                  refine ⟨previous, ((hstart rfl).resolve_right fun h => ?_).2, hmatch⟩
                  exact absurd (h.symm.trans hc) (by decide)
                · exact (hpassed hne).2.2

end Scan

section Footer

def entry (p : String × String) : List Char := p.2.toList ++ '→' :: p.1.toList

theorem splitOnceArrow_entry {p : String × String} (h : '→' ∉ p.2.toList) :
    splitOnceArrow (entry p) = some (p.2, p.1) := by
  have hbefore : ∀ c ∈ p.2.toList, decide (c ≠ '→') = true := fun c hc =>
    decide_eq_true fun heq => h (heq ▸ hc)
  rw [splitOnceArrow, if_pos (by simp [entry]), entry, List.takeWhile_append_of_pos hbefore,
    List.dropWhile_append_of_pos hbefore]
  simp

theorem toList_foldl_footer (used : List (String × String)) : ∀ footer : String,
    (used.foldl (fun footer (original, token) =>
      footer ++ " " ++ token ++ "→" ++ original) footer).toList =
      footer.toList ++ used.flatMap fun p => ' ' :: entry p := by
  induction used with
  | nil => intro footer; simp
  | cons p used ih =>
      intro footer
      rw [List.foldl_cons, ih]
      simp [entry]

theorem toList_buildFooter {p : String × String} {used : List (String × String)} :
    (buildFooter (p :: used)).toList =
      "§TA ".toList ++ [' '].intercalate ((p :: used).map entry) := by
  have hjoin : ∀ (p : String × String) (used : List (String × String)),
      ((p :: used).flatMap fun p => ' ' :: entry p) =
        ' ' :: [' '].intercalate ((p :: used).map entry) := by
    intro p used
    induction used generalizing p with
    | nil => simp
    | cons q used ih =>
        rw [List.flatMap_cons, ih q]
        simp only [List.map_cons, List.intercalate_cons_cons]
        simp
  rw [buildFooter, List.isEmpty_cons, if_neg Bool.false_ne_true, toList_foldl_footer, hjoin]
  rfl

/-- The footer carries pairs whose originals have no blank. -/
theorem parseTaFooter_buildFooter {used : List (String × String)}
    (htoken : ∀ p ∈ used, IsWord isBoundaryChar p.2.toList)
    (horiginal : ∀ p ∈ used, ' ' ∉ p.1.toList) :
    parseTaFooter (buildFooter used) = used.map Prod.swap := by
  cases used with
  | nil => rfl
  | cons p used =>
      have hclean : ∀ c, isBoundaryChar c = true → ∀ q ∈ p :: used, c ∉ q.2.toList :=
        fun c hc q hq hmem => by simp [(htoken q hq).2 c hmem] at hc
      have hentries : ∀ e ∈ (p :: used).map entry, ' ' ∉ e := by
        refine List.forall_mem_map.mpr fun q hq => ?_
        simp [entry, hclean ' ' (by decide) q hq, horiginal q hq]
      rw [parseTaFooter, toList_buildFooter,
        List.isPrefixOf?_eq_some_iff_append_eq.mpr rfl]
      change (([' '].intercalate ((p :: used).map entry)).splitOn ' ').filterMap splitOnceArrow = _
      rw [List.splitOn_intercalate ' ' hentries (List.cons_ne_nil _ _), List.filterMap_map,
        ← List.filterMap_eq_map]
      refine List.filterMap_congr fun q hq => ?_
      exact splitOnceArrow_entry (hclean '→' (by decide) q hq)

end Footer

section Uses

variable {aliases : Std.TreeMap String String} {used : List (String × String)}

theorem mem_of_mem_firstUses {p : String × String} (h : p ∈ firstUses used) : p ∈ used := by
  have hfold : ∀ (used seen : List (String × String)),
      p ∈ used.foldl (fun seen p => if seen.any (·.1 == p.1) then seen else seen ++ [p]) seen →
        p ∈ seen ∨ p ∈ used := by
    intro used
    induction used with
    | nil => exact fun _ => .inl
    | cons q used ih =>
        intro seen hp
        obtain hseen | hrest := ih _ hp
        · dsimp only at hseen
          split at hseen
          · exact .inl hseen
          · obtain hseen | hq := List.mem_append.mp hseen
            · exact .inl hseen
            · exact .inr (List.mem_cons.mpr (.inl (List.mem_singleton.mp hq)))
        · exact .inr (List.mem_cons_of_mem _ hrest)
  exact (hfold used [] h).resolve_left List.not_mem_nil

theorem exists_mem_firstUses {p : String × String} (h : p ∈ used) :
    ∃ q ∈ firstUses used, q.1 = p.1 := by
  have hfold : ∀ (used seen : List (String × String)), (∃ q ∈ seen, q.1 = p.1) ∨ p ∈ used →
      ∃ q ∈ used.foldl (fun seen p => if seen.any (·.1 == p.1) then seen else seen ++ [p]) seen,
        q.1 = p.1 := by
    intro used
    induction used with
    | nil => exact fun _ h => h.resolve_right List.not_mem_nil
    | cons r used ih =>
        intro seen hp
        refine ih _ ?_
        dsimp only
        by_cases hany : seen.any (·.1 == r.1) = true
        · rw [if_pos hany]
          obtain hseen | hmem := hp
          · exact .inl hseen
          · obtain rfl | hrest := List.mem_cons.mp hmem
            · obtain ⟨q, hq, heq⟩ := List.any_eq_true.mp hany
              exact .inl ⟨q, hq, by simpa using heq⟩
            · exact .inr hrest
        · rw [if_neg hany]
          obtain ⟨q, hq, heq⟩ | hmem := hp
          · exact .inl ⟨q, List.mem_append_left _ hq, heq⟩
          · obtain rfl | hrest := List.mem_cons.mp hmem
            · exact .inl ⟨p, List.mem_append_right _ (List.mem_singleton.mpr rfl), rfl⟩
            · exact .inr hrest
  exact hfold used [] (.inr h)

def usedIn (aliases : Std.TreeMap String String) (type : String) : List (String × String) :=
  uses (scan (candidates aliases) type)

theorem candidate_of_usedIn {type : String} {p : String × String} (h : p ∈ usedIn aliases type) :
    p ∈ candidates aliases := by
  have hpair := mem_of_replaced (mem_uses.mp h)
  rwa [String.ofList_toList, String.ofList_toList] at hpair

theorem mem_firstUses_usedIn {type : String} {p : String × String} :
    p ∈ firstUses (usedIn aliases type) ↔ p ∈ usedIn aliases type := by
  refine ⟨mem_of_mem_firstUses, fun h => ?_⟩
  obtain ⟨q, hq, heq⟩ := exists_mem_firstUses h
  have hp := (mem_candidates.mp (candidate_of_usedIn h)).1
  have hq' := (mem_candidates.mp (candidate_of_usedIn (mem_of_mem_firstUses hq))).1
  rw [heq, hp] at hq'
  rwa [← Prod.ext heq (Option.some.inj hq').symm]

def rewritten (aliases : Std.TreeMap String String) (type : String) : String :=
  String.ofList ((scan (candidates aliases) type).flatMap after)

theorem applyTypeAliases_eq (aliases : Std.TreeMap String String) (type : String) :
    applyTypeAliases type aliases = (rewritten aliases type, buildFooter (firstUses (usedIn aliases type))) := by
  rw [applyTypeAliases]
  by_cases hempty : (candidates aliases).isEmpty = true
  · have hnone : ∀ n previous text, scanFrom [] n previous text = (text.drop n).map kept := by
      intro n previous text
      induction text generalizing n previous with
      | nil => rw [scanFrom, List.drop_nil, List.map_nil]
      | cons c rest ih =>
          cases n with
          | succ n => exact ih n (some c)
          | zero => rw [scanFrom, matchAt, List.find?_nil, ih]; rfl
    have hafter : ∀ text : List Char, (text.map kept).flatMap after = text := fun text => by
      rw [List.flatMap_map]
      exact List.flatMap_singleton' text
    have huses : ∀ text : List Char, uses (text.map kept) = [] := fun text => by
      rw [uses, List.filterMap_map]
      exact List.filterMap_eq_nil_iff.mpr fun _ _ => rfl
    rw [if_pos hempty, rewritten, usedIn, List.isEmpty_iff.mp hempty, scan, hnone, List.drop_zero,
      hafter, huses, String.ofList_toList]
    rfl
  · rw [if_neg hempty]
    rfl

theorem before_scan (aliases : Std.TreeMap String String) (type : String) :
    (scan (candidates aliases) type).flatMap before = type.toList :=
  (before_scanFrom (usable_candidates aliases) 0 none type.toList).trans (List.drop_zero)

/-- What the pass records of a type. -/
def recorded (aliases : Std.TreeMap String String) (type : String) : List (String × String) :=
  if rewritten aliases type ≠ "" ∧ rewritten aliases type ≠ type then
    parseTaFooter (buildFooter (firstUses (usedIn aliases type)))
  else []

theorem isWord_of_replaced {type : String} {original token : List Char}
    (h : replaced original token ∈ scan (candidates aliases) type) :
    IsWord isBoundaryChar token ∧ original ≠ [] := by
  have husable := usable_candidates aliases
  have hword := husable.token _ (mem_of_replaced h)
  have hne := husable.original _ (mem_of_replaced h)
  rw [String.toList_ofList] at hword hne
  exact ⟨hword, hne⟩

theorem eq_empty_of_rewritten {type : String} (h : rewritten aliases type = "") : type = "" := by
  have hafter : (scan (candidates aliases) type).flatMap after = [] := String.ofList_eq_empty_iff.mp h
  have hbefore := before_scan aliases type
  cases hpieces : scan (candidates aliases) type with
  | nil =>
      rw [hpieces] at hbefore
      exact String.toList_eq_nil_iff.mp hbefore.symm
  | cons piece rest =>
      have hnil := List.flatMap_eq_nil_iff.mp hafter piece (by rw [hpieces]; exact List.mem_cons_self)
      cases piece with
      | kept => cases hnil
      | replaced original token =>
          exact absurd hnil (isWord_of_replaced (by rw [hpieces]; exact List.mem_cons_self)).1.1

theorem substituteTypeInOp_eq (type : String) (used : Used) :
    substituteTypeInOp aliases type used = (rewritten aliases type,
      (recorded aliases type).foldl (fun used p => used.insert p.1 p.2) used) := by
  rw [substituteTypeInOp, applyTypeAliases_eq, recorded]
  dsimp only
  split
  · rfl
  · rename_i hsame
    refine Prod.ext ?_ rfl
    by_contra hne
    refine hsame ⟨fun hempty => hne ?_, Ne.symm hne⟩
    exact (eq_empty_of_rewritten hempty).trans hempty.symm

end Uses

def typeOperand : CoreOp → Option String
  | .fieldType _ type | .ret _ type | .param _ _ type _ => some type
  | _ => none

def mapType (f : String → String) : CoreOp → CoreOp
  | .fieldType fieldId type => .fieldType fieldId (f type)
  | .ret methodId type => .ret methodId (f type)
  | .param methodId paramId type name => .param methodId paramId (f type) name
  | op => op

def typesOf (instructions : List CoreOp) : List String := instructions.filterMap typeOperand

section Instructions

variable {aliases : Std.TreeMap String String} {instructions : List CoreOp}

theorem substituteOp_eq (op : CoreOp) (used : Used) : substituteOp aliases op used =
    (mapType (rewritten aliases) op, ((typeOperand op).toList.flatMap (recorded aliases)).foldl
      (fun used p => used.insert p.1 p.2) used) := by
  have hone : ∀ type : String, [type].flatMap (recorded aliases) = recorded aliases type :=
    fun type => List.flatMap_singleton _ _
  cases op with
  | fieldType | ret | param =>
      simp only [substituteOp, substituteTypeInOp_eq, mapType, typeOperand, Option.toList_some, hone]
  | _ => rfl

theorem substituteOps_eq (instructions : List CoreOp) (used : Used) :
    substituteOps aliases instructions used =
      (instructions.map (mapType (rewritten aliases)),
        ((typesOf instructions).flatMap (recorded aliases)).foldl
          (fun used p => used.insert p.1 p.2) used) := by
  induction instructions generalizing used with
  | nil => rfl
  | cons op ops ih =>
      rw [substituteOps, substituteOp_eq, typesOf]
      dsimp only
      rw [ih, List.filterMap_cons]
      cases typeOperand op with
      | none => rfl
      | some type => simp only [Option.toList_some, List.flatMap_cons, List.foldl_append,
          List.flatMap_nil, List.append_nil, List.map_cons, typesOf]

def usedMap (aliases : Std.TreeMap String String) (types : List String) : Used :=
  (types.flatMap (recorded aliases)).foldl (fun used p => used.insert p.1 p.2) ∅

theorem mem_of_getElem?_foldl {l : List (String × String)} {token original : String}
    (h : (l.foldl (fun used p => used.insert p.1 p.2) (∅ : Used))[token]? = some original) :
    (token, original) ∈ l := by
  have hfold : ∀ (l : List (String × String)) (used : Used),
      (l.foldl (fun used p => used.insert p.1 p.2) used)[token]? = some original →
        used[token]? = some original ∨ (token, original) ∈ l := by
    intro l
    induction l with
    | nil => exact fun _ => .inl
    | cons p l ih =>
        intro used h
        obtain hused | hrest := ih _ h
        · rw [Std.TreeMap.getElem?_insert] at hused
          split at hused
          · rename_i heq
            cases hused
            rw [Std.LawfulEqOrd.compare_eq_iff_eq] at heq
            exact .inr (List.mem_cons.mpr (.inl (Prod.ext heq.symm rfl)))
          · exact .inl hused
        · exact .inr (List.mem_cons_of_mem _ hrest)
  refine (hfold l ∅ h).resolve_left fun hnone => ?_
  simp at hnone

theorem isSome_getElem?_foldl {l : List (String × String)} {p : String × String} (h : p ∈ l) :
    (l.foldl (fun used p => used.insert p.1 p.2) (∅ : Used))[p.1]?.isSome := by
  have hfold : ∀ (l : List (String × String)) (used : Used),
      used[p.1]?.isSome ∨ p ∈ l →
        (l.foldl (fun used p => used.insert p.1 p.2) used)[p.1]?.isSome := by
    intro l
    induction l with
    | nil => exact fun _ h => h.resolve_right List.not_mem_nil
    | cons q l ih =>
        intro used h
        refine ih _ ?_
        rw [Std.TreeMap.getElem?_insert]
        split
        · exact .inl rfl
        · rename_i hne
          obtain hused | hmem := h
          · exact .inl hused
          · obtain rfl | hrest := List.mem_cons.mp hmem
            · exact absurd Std.ReflOrd.compare_self hne
            · exact .inr hrest
  exact hfold l ∅ (.inr h)

theorem mapType_id (op : CoreOp) : mapType (fun type => type) op = op := by
  cases op <;> rfl

def declarations (aliases : Std.TreeMap String String) (types : List String) : List CoreOp :=
  (usedMap aliases types).toList.map fun p => .typeAlias p.1 p.2

theorem applyTypeAliasesToIr_eq (instructions : List CoreOp) (aliases : Std.TreeMap String String) :
    applyTypeAliasesToIr instructions aliases =
      instructions.map (mapType (rewritten aliases)) ++ declarations aliases (typesOf instructions) := by
  rw [applyTypeAliasesToIr]
  by_cases hempty : aliases.isEmpty = true
  · have hcandidates : candidates aliases = [] := by
      refine List.eq_nil_iff_forall_not_mem.mpr fun p hp => ?_
      have hget := (mem_candidates.mp hp).1
      rw [Std.TreeMap.getElem?_of_isEmpty hempty] at hget
      cases hget
    have hsame : rewritten aliases = fun type => type := by
      funext type
      have heq := applyTypeAliases_eq aliases type
      rw [applyTypeAliases, hcandidates] at heq
      exact (congrArg Prod.fst heq).symm
    have hnone : ∀ type, recorded aliases type = [] := fun type => by
      rw [recorded, hsame, if_neg fun h => h.2 rfl]
    have hused : usedMap aliases (typesOf instructions) = ∅ := by
      rw [usedMap, List.flatMap_eq_nil_iff.mpr fun type _ => hnone type]
      rfl
    rw [if_pos hempty, hsame, declarations, hused]
    simp [mapType_id, List.map_id'']
    rfl
  · rw [if_neg hempty, substituteOps_eq]
    rfl

end Instructions

/-- The original that some instructions declare for a word, or the word. -/
def declared (ops : List CoreOp) (word : List Char) : List Char :=
  (ops.findSome? fun
    | .typeAlias token original => if token.toList = word then some original.toList else none
    | _ => none).getD word

def restoreType (ops : List CoreOp) (type : String) : String :=
  String.ofList (mapWords isBoundaryChar (declared ops) type.toList)

/-- The pass only appends aliases, from which its rewriting is undone, and leaves every instruction
without a type as it is. -/
structure Reversible (instructions : List CoreOp) (aliases : Std.TreeMap String String) : Prop where
  appends : ∀ op ∈ (applyTypeAliasesToIr instructions aliases).drop instructions.length,
    ∃ token original, op = .typeAlias token original
  restores : ((applyTypeAliasesToIr instructions aliases).take instructions.length).map
    (mapType (restoreType
      ((applyTypeAliasesToIr instructions aliases).drop instructions.length))) = instructions
  keeps : ∀ (i : Nat) (op : CoreOp), instructions[i]? = some op → typeOperand op = none →
    (applyTypeAliasesToIr instructions aliases)[i]? = some op

def usedPairs (aliases : Std.TreeMap String String) (types : List String) : List (String × String) :=
  types.flatMap (usedIn aliases)

/-- An alias of its own for every original that is used, originals without a blank, occurrences that
do not touch, and no alias among the words that are kept. -/
structure Separable (aliases : Std.TreeMap String String) (types : List String) : Prop where
  own : ∀ p ∈ usedPairs aliases types, ∀ q ∈ usedPairs aliases types, p.2 = q.2 → p.1 = q.1
  whole : ∀ p ∈ usedPairs aliases types, ' ' ∉ p.1.toList
  apart : ∀ type ∈ types, Spaced (scan (candidates aliases) type)
  fresh : ∀ type ∈ types, ∀ w, .word w ∈ items isBoundaryChar (scan (candidates aliases) type) →
    ∀ p ∈ usedPairs aliases types, p.2.toList ≠ w

section Recorded

variable {aliases : Std.TreeMap String String} {types : List String} {type : String}

/-- Where no original has a blank, the pairs of a type that changes are recorded, and no others. -/
theorem mem_recorded (hwhole : ∀ p ∈ usedIn aliases type, ' ' ∉ p.1.toList) {p : String × String} :
    p.swap ∈ recorded aliases type ↔ rewritten aliases type ≠ type ∧ p ∈ usedIn aliases type := by
  have hparse : parseTaFooter (buildFooter (firstUses (usedIn aliases type))) =
      (firstUses (usedIn aliases type)).map Prod.swap :=
    parseTaFooter_buildFooter
      (fun q hq => (usable_candidates aliases).token q
        (candidate_of_usedIn (mem_of_mem_firstUses hq)))
      fun q hq => hwhole q (mem_of_mem_firstUses hq)
  rw [recorded]
  by_cases hsame : rewritten aliases type = type
  · rw [if_neg fun h => h.2 hsame]
    exact iff_of_false List.not_mem_nil fun h => h.1 hsame
  · have hne : rewritten aliases type ≠ "" := fun hempty =>
      hsame (hempty.trans (eq_empty_of_rewritten hempty).symm)
    rw [if_pos ⟨hne, hsame⟩, hparse, List.mem_map_of_injective Prod.swap_injective,
      mem_firstUses_usedIn, and_iff_right hsame]

theorem usedPair_of_usedMap (hwhole : ∀ p ∈ usedPairs aliases types, ' ' ∉ p.1.toList)
    {token original : String} (h : (usedMap aliases types)[token]? = some original) :
    (original, token) ∈ usedPairs aliases types := by
  obtain ⟨type, htype, hrecorded⟩ := List.mem_flatMap.mp (mem_of_getElem?_foldl h)
  have hmem := (mem_recorded (p := (original, token)) fun p hp =>
    hwhole p (List.mem_flatMap.mpr ⟨type, htype, hp⟩)).mp hrecorded
  exact List.mem_flatMap.mpr ⟨type, htype, hmem.2⟩

theorem isSome_usedMap (hwhole : ∀ p ∈ usedPairs aliases types, ' ' ∉ p.1.toList)
    (htype : type ∈ types) (hchanged : rewritten aliases type ≠ type) {p : String × String}
    (hp : p ∈ usedIn aliases type) : (usedMap aliases types)[p.2]?.isSome := by
  have hrecorded := (mem_recorded fun q hq =>
    hwhole q (List.mem_flatMap.mpr ⟨type, htype, hq⟩)).mpr ⟨hchanged, hp⟩
  exact isSome_getElem?_foldl (p := p.swap) (List.mem_flatMap.mpr ⟨type, htype, hrecorded⟩)

theorem declared_declarations (aliases : Std.TreeMap String String) (types : List String)
    (word : List Char) : declared (declarations aliases types) word =
      ((usedMap aliases types)[String.ofList word]?.map String.toList).getD word := by
  rw [declared, declarations, List.findSome?_map]
  cases hfound : List.findSome? _ (usedMap aliases types).toList with
  | some original =>
      obtain ⟨p, hp, hvalue⟩ := List.exists_of_findSome?_eq_some hfound
      dsimp only [Function.comp_apply] at hvalue
      split at hvalue
      · rename_i hword
        cases hvalue
        rw [← hword, String.ofList_toList, Std.TreeMap.mem_toList_iff_getElem?_eq_some.mp hp]
        rfl
      · cases hvalue
  | none =>
      cases hget : (usedMap aliases types)[String.ofList word]? with
      | none => rfl
      | some original =>
          have hnone := List.findSome?_eq_none_iff.mp hfound _
            (Std.TreeMap.mem_toList_iff_getElem?_eq_some.mpr hget)
          simp at hnone

end Recorded

section Restored

variable {aliases : Std.TreeMap String String} {types : List String} {type : String}
  {original token : List Char}

theorem mem_usedIn (h : replaced original token ∈ scan (candidates aliases) type) :
    (String.ofList original, String.ofList token) ∈ usedIn aliases type := by
  refine mem_uses.mpr ?_
  rwa [String.toList_ofList, String.toList_ofList]

theorem mem_usedPairs (htype : type ∈ types)
    (h : replaced original token ∈ scan (candidates aliases) type) :
    (String.ofList original, String.ofList token) ∈ usedPairs aliases types :=
  List.mem_flatMap.mpr ⟨type, htype, mem_usedIn h⟩

theorem exists_replaced {p : String × String} (h : p ∈ usedPairs aliases types) :
    ∃ type ∈ types, replaced p.1.toList p.2.toList ∈ scan (candidates aliases) type := by
  obtain ⟨type, htype, hp⟩ := List.mem_flatMap.mp h
  exact ⟨type, htype, mem_uses.mp hp⟩

theorem declared_of_fresh (hwhole : ∀ p ∈ usedPairs aliases types, ' ' ∉ p.1.toList)
    {w : List Char} (hfresh : ∀ p ∈ usedPairs aliases types, p.2.toList ≠ w) :
    declared (declarations aliases types) w = w := by
  rw [declared_declarations]
  cases hget : (usedMap aliases types)[String.ofList w]? with
  | none => rfl
  | some original =>
      exact absurd String.toList_ofList (hfresh _ (usedPair_of_usedMap hwhole hget))

/-- An alias that stands in a rewritten type declares the original it replaced, or replaced
itself. -/
theorem declared_of_replaced (h : Separable aliases types) (htype : type ∈ types)
    (hmem : replaced original token ∈ scan (candidates aliases) type) :
    declared (declarations aliases types) token = original := by
  have hused := mem_usedPairs htype hmem
  rw [declared_declarations]
  cases hget : (usedMap aliases types)[String.ofList token]? with
  | some other =>
      have hown := h.own _ (usedPair_of_usedMap h.whole hget) _ hused rfl
      dsimp only at hown
      rw [hown, Option.map_some, Option.getD_some, String.toList_ofList]
  | none =>
      have hsame : rewritten aliases type = type := by
        by_contra hchanged
        have hrecorded := isSome_usedMap h.whole htype hchanged (mem_usedIn hmem)
        rw [hget] at hrecorded
        cases hrecorded
      have htext := congrArg String.toList hsame
      rw [rewritten, String.toList_ofList, ← before_scan aliases type] at htext
      exact token_eq_of_after_eq (delimited_scan (usable_candidates aliases) (h.apart type htype))
        (fun _ _ hmem => (isWord_of_replaced hmem).1) (fun _ _ hmem => (isWord_of_replaced hmem).2)
        htext hmem

theorem restoreType_rewritten (h : Separable aliases types) (htype : type ∈ types) :
    restoreType (declarations aliases types) (rewritten aliases type) = type := by
  have hitems : ∀ item ∈ items isBoundaryChar (scan (candidates aliases) type),
      ((item.part after).mapWord (declared (declarations aliases types))).text =
        item.text before := by
    intro item hitem
    cases item with
    | word w => exact declared_of_fresh h.whole (h.fresh type htype w hitem)
    | swap original token => exact declared_of_replaced h htype (replaced_mem_of_swap hitem)
    | mark c => rfl
  rw [restoreType, rewritten, String.toList_ofList,
    mapWords_after (delimited_scan (usable_candidates aliases) (h.apart type htype))
      (fun _ _ hmem => (isWord_of_replaced hmem).1) hitems, before_scan, String.ofList_toList]

/-- Where the originals are words, no two occurrences touch. -/
theorem spaced_scanFrom {pairs : List (String × String)} (husable : Usable pairs) (n : Nat)
    (previous : Option Char) (text : List Char)
    (hwords : ∀ original token, replaced original token ∈ scanFrom pairs n previous text →
      IsWord isBoundaryChar original) : Spaced (scanFrom pairs n previous text) := by
  induction text generalizing n previous with
  | nil => trivial
  | cons c rest ih =>
      cases n with
      | succ n => exact ih n (some c) hwords
      | zero =>
          rw [scanFrom] at hwords ⊢
          split at hwords
          · rename_i original token hmatch
            refine ⟨fun _ next hnext => ?_, ih _ (some c) fun o t h =>
              hwords o t (List.mem_cons_of_mem _ h)⟩
            cases next with
            | kept => rfl
            | replaced o t =>
                -- The other occurrence would start with a boundary.
                have hafter := drop_pred_of_matchAt husable hmatch
                obtain ⟨tail, htail⟩ := List.head?_eq_some_iff.mp hnext
                rw [← before_scanFrom husable _ (some c), htail, List.flatMap_cons] at hafter
                obtain ⟨hne, hplain⟩ := hwords o t (List.mem_cons_of_mem _ (by
                  rw [htail]; exact List.mem_cons_self))
                obtain ⟨d, o', rfl⟩ := List.exists_cons_of_ne_nil hne
                have hd : isBoundaryChar d = true := hafter
                rw [hplain d List.mem_cons_self] at hd
                cases hd
          · exact ⟨nofun, ih 0 (some c) fun o t h => hwords o t (List.mem_cons_of_mem _ h)⟩

variable (hwords : ∀ p ∈ usedPairs aliases types, IsWord isBoundaryChar p.1.toList)
include hwords

theorem whole_of_words : ∀ p ∈ usedPairs aliases types, ' ' ∉ p.1.toList := fun p hp hmem => by
  have hblank := (hwords p hp).2 ' ' hmem
  exact absurd hblank (by decide)

theorem isWord_of_used (htype : type ∈ types)
    (h : replaced original token ∈ scan (candidates aliases) type) :
    IsWord isBoundaryChar original := by
  have hword := hwords _ (mem_usedPairs htype h)
  rwa [String.toList_ofList] at hword

theorem spaced_of_words (htype : type ∈ types) : Spaced (scan (candidates aliases) type) :=
  spaced_scanFrom (usable_candidates aliases) 0 none _ fun _ _ h => isWord_of_used hwords htype h

theorem isWord_declared {w : List Char} (hw : IsWord isBoundaryChar w) :
    IsWord isBoundaryChar (declared (declarations aliases types) w) := by
  rw [declared_declarations]
  cases hget : (usedMap aliases types)[String.ofList w]? with
  | none => exact hw
  | some original => exact hwords _ (usedPair_of_usedMap (whole_of_words hwords) hget)

/-- Where the originals are words, a type that is restored is restored word by word. -/
theorem part_of_restoreType (htype : type ∈ types)
    (hback : restoreType (declarations aliases types) (rewritten aliases type) = type) :
    ∀ item ∈ items isBoundaryChar (scan (candidates aliases) type),
      (item.part after).mapWord (declared (declarations aliases types)) = item.part before := by
  have htext := congrArg String.toList hback
  rw [restoreType, rewritten, String.toList_ofList, String.toList_ofList,
    ← before_scan aliases type] at htext
  refine part_of_mapWords_after
    (delimited_scan (usable_candidates aliases) (spaced_of_words hwords htype))
    (fun _ _ hmem => (isWord_of_replaced hmem).1) (fun _ _ hmem => isWord_of_used hwords htype hmem)
    (fun w hw => isWord_declared hwords (isWord_of_mem_partsFrom (by simp) hw)) htext

theorem declared_of_restoreType {p : String × String} (hp : p ∈ usedPairs aliases types)
    (hback : ∀ type ∈ types,
      restoreType (declarations aliases types) (rewritten aliases type) = type) :
    declared (declarations aliases types) p.2.toList = p.1.toList := by
  obtain ⟨type, htype, hmem⟩ := exists_replaced hp
  have hpart := part_of_restoreType hwords htype (hback type htype) _ (swap_mem_itemsFrom hmem)
  exact Part.word.inj hpart

theorem separable_of_restoreType (hback : ∀ type ∈ types,
      restoreType (declarations aliases types) (rewritten aliases type) = type) :
    Separable aliases types where
  own p hp q hq heq := by
    have hdeclared := declared_of_restoreType hwords hp hback
    rw [heq, declared_of_restoreType hwords hq hback] at hdeclared
    exact (String.toList_inj.mp hdeclared).symm
  whole := whole_of_words hwords
  apart _ htype := spaced_of_words hwords htype
  fresh type htype w hw p hp heq := by
    have hpart := part_of_restoreType hwords htype (hback type htype) _ hw
    have hsame : declared (declarations aliases types) w = w := Part.word.inj hpart
    rw [← heq, declared_of_restoreType hwords hp hback, heq] at hsame
    have hcandidate : p ∈ candidates aliases := by
      obtain ⟨other, -, hused⟩ := List.mem_flatMap.mp hp
      exact candidate_of_usedIn hused
    exact ne_of_word_mem (usable_candidates aliases) (fun _ => .inl ⟨rfl, rfl⟩)
      (fun hne => (hne rfl).elim) hw p hcandidate hsame

end Restored

section Reversal

variable {instructions : List CoreOp} {aliases : Std.TreeMap String String}

theorem take_applyTypeAliasesToIr (instructions : List CoreOp)
    (aliases : Std.TreeMap String String) :
    (applyTypeAliasesToIr instructions aliases).take instructions.length =
      instructions.map (mapType (rewritten aliases)) := by
  rw [applyTypeAliasesToIr_eq]
  exact List.take_left' (List.length_map _)

theorem drop_applyTypeAliasesToIr (instructions : List CoreOp)
    (aliases : Std.TreeMap String String) :
    (applyTypeAliasesToIr instructions aliases).drop instructions.length =
      declarations aliases (typesOf instructions) := by
  rw [applyTypeAliasesToIr_eq]
  exact List.drop_left' (List.length_map _)

theorem mapType_comp (f g : String → String) (op : CoreOp) :
    mapType f (mapType g op) = mapType (fun type => f (g type)) op := by
  cases op <;> rfl

theorem mapType_eq_self {f : String → String} {op : CoreOp} :
    mapType f op = op ↔ ∀ type, typeOperand op = some type → f type = type := by
  cases op <;> simp [mapType, typeOperand]

/-- What the pass does without any condition: it appends aliases, and leaves the other instructions
as they are. What is left is that every type is restored. -/
theorem reversible_iff_restoreType : Reversible instructions aliases ↔
    ∀ type ∈ typesOf instructions,
      restoreType (declarations aliases (typesOf instructions)) (rewritten aliases type) = type := by
  have hmap : (instructions.map (mapType (rewritten aliases))).map
      (mapType (restoreType (declarations aliases (typesOf instructions)))) = instructions ↔
      ∀ type ∈ typesOf instructions,
        restoreType (declarations aliases (typesOf instructions)) (rewritten aliases type) =
          type := by
    nth_rewrite 3 [← List.map_id instructions]
    rw [List.map_map, List.map_inj_left]
    simp only [Function.comp_apply, id_eq, mapType_comp, mapType_eq_self, typesOf, List.mem_filterMap]
    exact ⟨fun h type ⟨op, hop, htype⟩ => h op hop type htype,
      fun h op hop type htype => h type ⟨op, hop, htype⟩⟩
  constructor
  · intro h
    have hrestores := h.restores
    rw [take_applyTypeAliasesToIr, drop_applyTypeAliasesToIr] at hrestores
    exact hmap.mp hrestores
  · intro h
    refine ⟨fun op hop => ?_, ?_, fun i op hget htype => ?_⟩
    · rw [drop_applyTypeAliasesToIr] at hop
      obtain ⟨p, -, rfl⟩ := List.mem_map.mp hop
      exact ⟨_, _, rfl⟩
    · rw [take_applyTypeAliasesToIr, drop_applyTypeAliasesToIr]
      exact hmap.mpr h
    · have hlt := (List.getElem?_eq_some_iff.mp hget).1
      rw [applyTypeAliasesToIr_eq, List.getElem?_append_left (by simpa using hlt),
        List.getElem?_map, hget, Option.map_some,
        mapType_eq_self.mpr fun type h => by rw [htype] at h; cases h]

/-- The pass can be undone if the types are separable, and where every original that is used is a
word, only then. -/
theorem reversible_iff_separable (instructions : List CoreOp) (aliases : Std.TreeMap String String) :
    (Separable aliases (typesOf instructions) → Reversible instructions aliases) ∧
      ((∀ p ∈ usedPairs aliases (typesOf instructions), IsWord isBoundaryChar p.1.toList) →
        (Reversible instructions aliases ↔ Separable aliases (typesOf instructions))) := by
  have hsufficient : Separable aliases (typesOf instructions) → Reversible instructions aliases :=
    fun h => reversible_iff_restoreType.mpr fun _ htype => restoreType_rewritten h htype
  refine ⟨hsufficient, fun hwords => ⟨fun h => ?_, hsufficient⟩⟩
  exact separable_of_restoreType hwords (reversible_iff_restoreType.mp h)

end Reversal

/-- A list of user ids, with an alias for them. -/
theorem reversible_list :
    Separable (.ofList [("UserId", "$id")]) ["List<UserId>"] ∧
      Reversible [.fieldType "F1" "List<UserId>"] (.ofList [("UserId", "$id")]) := by
  have hcandidates : candidates (.ofList [("UserId", "$id")]) = [("UserId", "$id")] := by
    have hvalid : ((Std.TreeMap.ofList [("UserId", "$id")]).toList.filter
        fun (p : String × String) =>
          isValidAlias p.2 && decide (minOriginalLen ≤ p.1.utf8ByteSize)) =
        [("UserId", "$id")] := by decide +kernel
    rw [candidates, hvalid]
    exact List.mergeSort_singleton _
  have hscan : scan (candidates (.ofList [("UserId", "$id")])) "List<UserId>" =
      [.kept 'L', .kept 'i', .kept 's', .kept 't', .kept '<',
        .replaced "UserId".toList "$id".toList, .kept '>'] := by
    rw [hcandidates]
    decide +kernel
  have hused : usedPairs (.ofList [("UserId", "$id")]) ["List<UserId>"] = [("UserId", "$id")] := by
    rw [usedPairs, List.flatMap_singleton, usedIn, hscan]
    decide +kernel
  have hwords : ∀ w, .word w ∈ items isBoundaryChar
      (scan (candidates (.ofList [("UserId", "$id")])) "List<UserId>") → w = "List".toList := by
    intro w hw
    have hitems : items isBoundaryChar (scan (candidates (.ofList [("UserId", "$id")]))
        "List<UserId>") = [.word "List".toList, .mark '<',
          .swap "UserId".toList "$id".toList, .mark '>'] := by
      rw [hscan]
      decide +kernel
    rw [hitems] at hw
    simpa using hw
  have hseparable : Separable (.ofList [("UserId", "$id")]) ["List<UserId>"] := by
    refine ⟨?_, ?_, ?_, ?_⟩
    · rw [hused]
      decide
    · rw [hused]
      decide +kernel
    · intro type htype
      rw [List.mem_singleton.mp htype, hscan]
      simp [Spaced, isReplaced]
    · intro type htype w hw
      rw [List.mem_singleton.mp htype] at hw
      rw [hwords w hw, hused]
      decide +kernel
  exact ⟨hseparable, (reversible_iff_separable [.fieldType "F1" "List<UserId>"] _).1 hseparable⟩

/-- Two originals that share an alias. -/
def sharedTypes : List CoreOp := [.fieldType "F1" "UserId", .fieldType "F2" "AccountId"]

def sharedAliases : Std.TreeMap String String := .ofList [("UserId", "$id"), ("AccountId", "$id")]

theorem filter_shared : (sharedAliases.toList.filter fun (original, token) =>
    isValidAlias token && decide (minOriginalLen ≤ original.utf8ByteSize)) =
      [("AccountId", "$id"), ("UserId", "$id")] := by
  decide +kernel

theorem usedPairs_shared : usedPairs sharedAliases (typesOf sharedTypes) =
    [("UserId", "$id"), ("AccountId", "$id")] := by
  have hcandidates : candidates sharedAliases = [("AccountId", "$id"), ("UserId", "$id")] := by
    rw [candidates, filter_shared]
    exact List.mergeSort_of_pairwise (by decide +kernel)
  have hused : usedIn sharedAliases = fun type =>
      uses (scan [("AccountId", "$id"), ("UserId", "$id")] type) := by
    funext type
    rw [usedIn, hcandidates]
  rw [usedPairs, hused]
  decide +kernel

/-- Both types become the alias, which can stand for one of them only. -/
theorem not_reversible_shared : ¬ Reversible sharedTypes sharedAliases := by
  intro h
  have hwords : ∀ p ∈ usedPairs sharedAliases (typesOf sharedTypes),
      IsWord isBoundaryChar p.1.toList := by
    have hplain : ∀ p ∈ [("UserId", "$id"), ("AccountId", "$id")],
        p.1.toList ≠ [] ∧ p.1.toList.all (fun c => !isBoundaryChar c) = true := by decide +kernel
    rw [usedPairs_shared]
    exact fun p hp => ⟨(hplain p hp).1, by simpa using (hplain p hp).2⟩
  have hseparable := separable_of_restoreType hwords (reversible_iff_restoreType.mp h)
  have hown := hseparable.own ("UserId", "$id") (by rw [usedPairs_shared]; exact List.mem_cons_self)
    ("AccountId", "$id") (by rw [usedPairs_shared]; simp) rfl
  exact absurd hown (by decide)

end TypeAliases
end CleanCtx
