import CleanCtx.Compaction.Parameters

/-!
What a parameter is: brackets of four kinds, of which the heads of arrows are none,
closed literals, and lifetimes. Such parameters come back from the loop where their
arrows, lifetimes and braces do not mislead it.
-/
namespace CleanCtx
namespace Compaction

inductive Bracket
  | round
  | square
  | curly
  | angle
  deriving DecidableEq, Repr

def Bracket.opening : Bracket → Char
  | round => '('
  | square => '['
  | curly => '\x7b'
  | angle => '<'

def Bracket.closing : Bracket → Char
  | round => ')'
  | square => ']'
  | curly => '\x7d'
  | angle => '>'

inductive LiteralPart
  | plain (c : Char)
  | escaped (c : Char)
  deriving DecidableEq, Repr

def LiteralPart.text : LiteralPart → List Char
  | plain c => [c]
  | escaped c => ['\\', c]

def LiteralPart.fits (quote : Char) : LiteralPart → Bool
  | plain c => c ≠ quote && c ≠ '\\'
  | escaped _ => true

inductive Layout
  | done
  | plain (c : Char) (rest : Layout)
  | arrow (shaft : Char) (rest : Layout)
  | lifetime (name : List Char) (rest : Layout)
  | literal (quote : Char) (body : List LiteralPart) (rest : Layout)
  | group (bracket : Bracket) (inner rest : Layout)

namespace Layout

def text : Layout → List Char
  | done => []
  | plain c rest => c :: rest.text
  | arrow shaft rest => shaft :: '>' :: rest.text
  | lifetime name rest => '\'' :: (name ++ rest.text)
  | literal quote body rest => quote :: (body.flatMap LiteralPart.text ++ quote :: rest.text)
  | group bracket inner rest =>
      bracket.opening :: (inner.text ++ bracket.closing :: rest.text)

def isBracket (c : Char) : Bool :=
  [Bracket.round, .square, .curly, .angle].any fun b => c = b.opening || c = b.closing

def wellFormed : Layout → Bool
  | done => true
  | plain c rest => !isQuote c && !isBracket c && rest.wellFormed
  | arrow shaft rest => (shaft = '-' || shaft = '=') && rest.wellFormed
  | lifetime name rest =>
      !name.isEmpty && name.all (fun c => c.isAlphanum || c = '_') &&
        rest.text.head? ≠ some '\'' && rest.wellFormed
  | literal quote body rest => isQuote quote && body.all (·.fits quote) && rest.wellFormed
  | group _ inner rest => inner.wellFormed && rest.wellFormed

/-- No comma outside brackets. -/
def commaFree : Layout → Bool
  | done => true
  | plain c rest => c ≠ ',' && rest.commaFree
  | arrow _ rest | lifetime _ rest | literal _ _ rest | group _ _ rest => rest.commaFree

/-- No lifetimes, arrows only outside counted brackets, and commas only inside them. -/
def straight : Nat → Layout → Bool
  | _, done => true
  | depth, plain c rest => (c ≠ ',' || 0 < depth) && rest.straight depth
  | depth, arrow _ rest => depth = 0 && rest.straight depth
  | _, lifetime _ _ => false
  | depth, literal _ _ rest => rest.straight depth
  | depth, group bracket inner rest =>
      inner.straight (if bracket = .curly then depth else depth + 1) && rest.straight depth

end Layout

/-- A parameter as a declaration writes it. -/
structure Parameter where
  layout : Layout
  wellFormed : layout.wellFormed = true
  commaFree : layout.commaFree = true
  nonempty : layout.text ≠ []
  trimmed : trim layout.text = layout.text

def Parameter.text (param : Parameter) : List Char := param.layout.text

variable {gap : List Char}

theorem LiteralPart.passes {quote : Char} {part : LiteralPart} (hpart : part.fits quote = true)
    (depth : Nat) :
    separation.Passes (.literal quote, depth) part.text (.literal quote, depth) := by
  cases part with
  | plain c =>
      obtain ⟨hquote, hslash⟩ : c ≠ quote ∧ c ≠ '\\' := by simpa [fits] using hpart
      refine .cons (cuts_literal quote depth c) ⟨?_, rfl⟩
      simp [Separation.after, separation, Reading.next, hquote, hslash]
  | escaped c =>
      exact .cons (cuts_literal quote depth _) (.cons (cuts_escape quote depth c) ⟨rfl, rfl⟩)

theorem LiteralPart.body_passes {quote : Char} {body : List LiteralPart}
    (hbody : body.all (·.fits quote) = true) (depth : Nat) :
    separation.Passes (.literal quote, depth) (body.flatMap text) (.literal quote, depth) := by
  induction body with
  | nil => exact ⟨rfl, rfl⟩
  | cons part body ih =>
      obtain ⟨hpart, hrest⟩ := Bool.and_eq_true_iff.mp hbody
      exact (passes hpart depth).append (ih hrest)

theorem Layout.level_of_not_isBracket {c : Char} (h : isBracket c = false) (depth : Nat) :
    level depth c = depth := by
  have hcounted : opens c = true ∨ closes c = true → isBracket c = true := by
    simp only [opens, closes, Bool.or_eq_true, decide_eq_true_eq, or_assoc]
    rintro (rfl | rfl | rfl | rfl | rfl | rfl) <;> rfl
  obtain ⟨hopens, hcloses⟩ := not_or.mp (mt hcounted (Bool.eq_false_iff.mp h))
  rw [level, if_neg hopens, if_neg hcloses]

/-- The loop is back where it was after a straight layout, and has not cut it. -/
theorem Layout.straight_passes (layout : Layout) : ∀ depth, layout.wellFormed = true →
    layout.straight depth = true →
    separation.Passes (.code, depth) layout.text (.code, depth) := by
  induction layout with
  | done => exact fun _ _ _ => ⟨rfl, rfl⟩
  | plain c rest ih =>
      intro depth hformed hstraight
      obtain ⟨hc, hrest⟩ := Bool.and_eq_true_iff.mp hformed
      obtain ⟨hcomma, hstraight⟩ := Bool.and_eq_true_iff.mp hstraight
      have hcut : separation.cuts (.code, depth) c = false := by
        rw [← Bool.not_eq_true, cuts_code_iff]
        rintro ⟨rfl, rfl⟩
        exact Bool.false_ne_true hcomma
      rw [Bool.and_eq_true, Bool.not_eq_true', Bool.not_eq_true'] at hc
      have hnext := next_of_not_isQuote (Bool.eq_false_iff.mp hc.1) depth
      rw [level_of_not_isBracket hc.2] at hnext
      exact .cons hcut (hnext.symm ▸ ih depth hrest hstraight)
  | arrow shaft rest ih =>
      intro depth hformed hstraight
      obtain ⟨hshaft, hrest⟩ := Bool.and_eq_true_iff.mp hformed
      obtain ⟨hdepth, hstraight⟩ := Bool.and_eq_true_iff.mp hstraight
      obtain rfl := of_decide_eq_true hdepth
      have hback := ih 0 hrest hstraight
      rw [Bool.or_eq_true, decide_eq_true_eq, decide_eq_true_eq] at hshaft
      obtain rfl | rfl := hshaft
      · exact .cons rfl (.cons rfl hback)
      · exact .cons rfl (.cons rfl hback)
  | lifetime name rest ih => exact fun _ _ h => absurd h Bool.false_ne_true
  | literal quote body rest ih =>
      intro depth hformed hstraight
      obtain ⟨hquote, hrest⟩ := Bool.and_eq_true_iff.mp hformed
      obtain ⟨hquote, hbody⟩ := Bool.and_eq_true_iff.mp hquote
      have hclosed : separation.next (.literal quote, depth) quote = (.code, depth) := by
        have hslash : quote ≠ '\\' := by rintro rfl; cases hquote
        simp [separation, Reading.next, hslash]
      refine .cons (cuts_of_isQuote hquote depth) (next_of_isQuote hquote depth ▸ ?_)
      refine (LiteralPart.body_passes hbody depth).append ?_
      exact .cons (cuts_literal quote depth quote) (hclosed ▸ ih depth hrest hstraight)
  | group bracket inner rest ihinner ihrest =>
      intro depth hformed hstraight
      obtain ⟨hinner, hrest⟩ := Bool.and_eq_true_iff.mp hformed
      obtain ⟨hsinner, hsrest⟩ := Bool.and_eq_true_iff.mp hstraight
      have hback := ihrest depth hrest hsrest
      cases bracket with
      | curly =>
          refine .cons (cuts_of_ne_comma (by decide) _) ((ihinner depth hinner hsinner).append ?_)
          exact .cons (cuts_of_ne_comma (by decide) _) hback
      | round | square | angle =>
          refine .cons (cuts_of_ne_comma (by decide) _)
            ((ihinner (depth + 1) hinner hsinner).append ?_)
          exact .cons (cuts_of_ne_comma (by decide) _) hback

/-- Parameters that are laid out straight come back. -/
theorem splitParameters_of_straight (hgap : Blank gap) (params : List Parameter)
    (h : ∀ param ∈ params, param.layout.straight 0 = true) :
    splitParameters (joinParameters gap (params.map Parameter.text)) =
      params.map Parameter.text := by
  have hscan : ∀ param ∈ params, separation.after separation.start param.text = separation.start ∧
      separation.uncut separation.start param.text = true :=
    fun param hparam => param.layout.straight_passes 0 param.wellFormed (h param hparam)
  refine (splitParameters_join_iff hgap _).mpr ⟨List.forall_mem_map.mpr fun param hparam => ?_, ?_⟩
  · exact ⟨param.nonempty, param.trimmed, shielded_iff.mp (hscan param hparam).2⟩
  · rw [← List.map_dropLast]
    refine List.forall_mem_map.mpr fun param hparam => ?_
    rw [← settled_iff, (hscan param (List.dropLast_subset params hparam)).1]
    rfl

/-- Joined parameters come back exactly if, with every quote as the start of a literal, each
comma of a parameter follows a nested stretch, and each parameter but the last ends outside
literals and not after such a stretch. -/
theorem splitParameters_parameters (hgap : Blank gap) (params : List Parameter) :
    splitParameters (joinParameters gap (params.map Parameter.text)) =
        params.map Parameter.text ↔
      (∀ param ∈ params, Shielded param.text) ∧
        ∀ param ∈ params.dropLast, Settled param.text := by
  rw [splitParameters_join_iff hgap, ← List.map_dropLast, List.forall_mem_map,
    List.forall_mem_map]
  refine and_congr_left' (forall₂_congr fun param _ => ⟨fun h => h.shielded, fun h => ?_⟩)
  exact ⟨param.nonempty, param.trimmed, h⟩

def Layout.plains (text : List Char) (rest : Layout) : Layout := text.foldr .plain rest

def borrowedParameter : Parameter where
  layout := .plains "a: &".toList (.lifetime ['a'] (.plains " str".toList .done))
  wellFormed := by decide
  commaFree := by decide
  nonempty := by decide
  trimmed := by decide

def callbackParameter : Parameter where
  layout := .plains "f: Map".toList (.group .angle (.group .round (.plains ['x'] .done)
    (.plains [' '] (.arrow '=' (.plains " A, B".toList .done)))) .done)
  wellFormed := by decide
  commaFree := by decide
  nonempty := by decide
  trimmed := by decide

/-- Two borrowed parameters are taken for one, and one with an arrow for two. -/
theorem splitParameters_misled :
    (¬∀ params : List Parameter, splitParameters (joinParameters [' '] (params.map
        Parameter.text)) = params.map Parameter.text) ∧
      splitParameters (joinParameters [' '] ([borrowedParameter, borrowedParameter].map
        Parameter.text)) = ["a: &'a str, a: &'a str".toList] ∧
      splitParameters (joinParameters [' '] ([callbackParameter].map Parameter.text)) =
        ["f: Map<(x) => A".toList, "B>".toList] := by
  refine ⟨fun h => ?_, by decide, by decide⟩
  have hsplit := h [callbackParameter]
  revert hsplit
  decide

def mapParameter : Parameter where
  layout := .plains "m: Map".toList (.group .angle (.plains "K, V".toList .done) .done)
  wellFormed := by decide
  commaFree := by decide
  nonempty := by decide
  trimmed := by decide

/-- Commas in angle brackets are kept, and a last parameter may end inside what is read as a
literal. -/
theorem splitParameters_parameters_borrowed :
    splitParameters (joinParameters [' ']
        ([mapParameter, mapParameter, borrowedParameter].map Parameter.text)) =
      ["m: Map<K, V>".toList, "m: Map<K, V>".toList, "a: &'a str".toList] := by
  have hgap : Blank [' '] := List.forall_mem_singleton.mpr rfl
  refine (splitParameters_parameters hgap [mapParameter, mapParameter, borrowedParameter]).mpr
    ⟨fun param hparam => shielded_iff.mp ?_, fun param hparam => settled_iff.mp ?_⟩
  · revert param
    decide
  · revert param
    decide

end Compaction
end CleanCtx
