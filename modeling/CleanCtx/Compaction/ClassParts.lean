import CleanCtx.Compaction.ClassIdentity
import Mathlib.Data.List.Find

/-!
Declarations of listed parts. Bracket groups, listed modifiers and a listed keyword are
taken off one after the other, so that the name of such a declaration is extracted
exactly if what stands behind it on its line is one of the ends of a name.
-/
namespace CleanCtx
namespace Compaction

/-- A listed word, with its blank and any more white space on the line behind it. -/
def Listed (words : List (List Char)) (part : List Char × List Char) : Prop :=
  part.1 ++ [' '] ∈ words ∧ ∃ gap, part.2 = ' ' :: gap ∧ Blank gap ∧ '\n' ∉ gap

/-- A bracket group with white space behind it. -/
structure BracketGroup (part : List Char × List Char) : Prop where
  opens : part.1.head? = some '['
  closes : ∀ rest, afterGroup 0 (part.1 ++ rest) = some rest
  gap : part.2 ≠ []
  blank : Blank part.2

section Attributes

variable {header : List Char}

theorem startsSolid_groups {attributes : List (List Char × List Char)}
    (h : ∀ part ∈ attributes, BracketGroup part) (hheader : StartsSolid header) :
    StartsSolid (spaced attributes ++ header) := by
  cases attributes with
  | nil => exact hheader
  | cons part attributes =>
      intro c hc
      have hopens := (h part List.mem_cons_self).opens
      rw [spaced, List.flatMap_cons, List.append_assoc, List.append_assoc, List.head?_append, hopens]
        at hc
      cases hc
      decide

theorem head_groups {attributes : List (List Char × List Char)}
    (h : ∀ part ∈ attributes, BracketGroup part)
    (hhead : (spaced attributes ++ header).head? ≠ some '[') : attributes = [] := by
  cases attributes with
  | nil => rfl
  | cons part attributes =>
      have hopens := (h part List.mem_cons_self).opens
      rw [spaced, List.flatMap_cons, List.append_assoc, List.append_assoc, List.head?_append, hopens]
        at hhead
      exact absurd rfl hhead

/-- The groups are taken off one after the other. -/
theorem stripAttributesFrom_groups (alphabet : Alphabet) (hheader : StartsSolid header)
    (hhead : header.head? ≠ some '[') {attributes : List (List Char × List Char)}
    (h : ∀ part ∈ attributes, BracketGroup part) {fuel : Nat} (hfuel : attributes.length ≤ fuel) :
    stripAttributesFrom alphabet fuel (spaced attributes ++ header) = header := by
  induction attributes generalizing fuel with
  | nil =>
      cases fuel with
      | zero => rfl
      | succ fuel => exact if_pos hhead
  | cons part attributes ih =>
      obtain ⟨fuel, rfl⟩ := Nat.exists_eq_add_of_le' (Nat.lt_of_lt_of_le (Nat.succ_pos _) hfuel)
      obtain ⟨hpart, hrest⟩ := List.forall_mem_cons.mp h
      have hmore := startsSolid_groups hrest hheader
      have hfirst : (spaced (part :: attributes) ++ header).head? = some '[' := by
        rw [spaced, List.flatMap_cons, List.append_assoc, List.append_assoc, List.head?_append,
          hpart.opens]
        rfl
      have hafter : afterGroup 0 (spaced (part :: attributes) ++ header) =
          some (part.2 ++ (spaced attributes ++ header)) := by
        rw [← hpart.closes, spaced, List.flatMap_cons, List.append_assoc, List.append_assoc]
        rfl
      have hdecl : nextIsDecl alphabet (part.2 ++ (spaced attributes ++ header)) = true := by
        obtain ⟨c, gap, hgap⟩ := List.exists_cons_of_ne_nil hpart.gap
        have hc := hpart.blank c (hgap ▸ List.mem_cons_self)
        rw [hgap, nextIsDecl, List.cons_append, List.head?_cons, Option.any_some, hc, Bool.or_true]
      rw [stripAttributesFrom, if_neg (not_not.mpr hfirst), hafter]
      simp only [hdecl, Bool.not_true, Bool.false_eq_true, if_false, trimStart_gap hpart.blank hmore]
      split
      · next hlast =>
        rw [head_groups hrest hlast.1]
        rfl
      · exact ih hrest (Nat.le_of_succ_le_succ hfuel)

/-- All bracket groups in front of a header are stripped. -/
theorem stripCsharpAttributes_groups (alphabet : Alphabet) (hheader : StartsSolid header)
    (hhead : header.head? ≠ some '[') {attributes : List (List Char × List Char)}
    (h : ∀ part ∈ attributes, BracketGroup part) :
    stripCsharpAttributes alphabet (spaced attributes ++ header) = header := by
  have hlength : attributes.length ≤ (spaced attributes).length := by
    induction attributes with
    | nil => exact Nat.le_refl 0
    | cons part attributes ih =>
        obtain ⟨hpart, hrest⟩ := List.forall_mem_cons.mp h
        have hpos := List.length_pos_of_ne_nil hpart.gap
        have := ih hrest
        rw [spaced] at this ⊢
        rw [List.length_cons, List.flatMap_cons, List.length_append, List.length_append]
        omega
  rw [stripCsharpAttributes, trimStart, (startsSolid_groups h hheader).dropWhile]
  refine stripAttributesFrom_groups alphabet hheader hhead h (hlength.trans ?_)
  rw [List.length_append]
  exact Nat.le_add_right _ _

end Attributes

section Words

/-- A text behind a listed word changes nothing, unless a longer one goes on in it. -/
theorem firstPrefix_append {words : List (List Char)} {w x : List Char}
    (h : ∀ q ∈ words, ∀ t, q = w ++ t → t ≠ [] → ¬t <+: x) :
    firstPrefix words (w ++ x) = firstPrefix words w := by
  have hsame : ∀ q ∈ words, q.isPrefixOf (w ++ x) = q.isPrefixOf w := by
    intro q hq
    rw [Bool.eq_iff_iff, List.isPrefixOf_iff_prefix, List.isPrefixOf_iff_prefix]
    constructor
    · intro hprefix
      obtain hshort | ⟨t, ht⟩ := List.prefix_or_prefix_of_prefix hprefix (List.prefix_append w x)
      · exact hshort
      · by_cases hnil : t = []
        · rw [hnil, List.append_nil] at ht
          exact ht ▸ List.prefix_refl w
        · rw [← ht, List.prefix_append_right_inj] at hprefix
          exact absurd hprefix (h q hq t ht.symm hnil)
    · exact fun hprefix => hprefix.trans (List.prefix_append w x)
  exact List.find?_congr hsame

/-- The text starts with a character that a listed word may start with. -/
def BeginsListed (s : List Char) : Prop :=
  ∃ c, s.head? = some c ∧ isWhiteSpace c = false ∧ c ≠ '[' ∧ c ≠ 'd'

theorem BeginsListed.startsSolid {s : List Char} (h : BeginsListed s) : StartsSolid s := by
  obtain ⟨c, hhead, hc, -⟩ := h
  intro e he
  rw [hhead] at he
  cases he
  exact hc

theorem beginsListed_append {w : List Char} (hw : w ∈ modifiersClass ++ classKeywords)
    (x : List Char) : BeginsListed (w ++ x) := by
  have hall : ∀ w ∈ modifiersClass ++ classKeywords,
      (w.head?.any fun c => !isWhiteSpace c && c ≠ '[' && c ≠ 'd') = true := by
    decide
  have hfits := hall w hw
  cases hhead : w.head? with
  | none =>
      rw [hhead] at hfits
      cases hfits
  | some c =>
      rw [hhead] at hfits
      simp only [Option.any_some, Bool.and_eq_true, Bool.not_eq_true', decide_eq_true_eq] at hfits
      exact ⟨c, by rw [List.head?_append, hhead, Option.some_or], hfits.1.1, hfits.1.2, hfits.2⟩

theorem no_end_of_listed : ∀ w ∈ modifiersClass ++ classKeywords, '\n' ∉ w ∧ '{' ∉ w := by
  decide

theorem firstPrefix_modifier {m x : List Char} (hm : m ∈ modifiersClass)
    (hx : x.head? ≠ some 'd') : firstPrefix modifiersClass (m ++ x) = some m := by
  have hself : ∀ m ∈ modifiersClass, firstPrefix modifiersClass m = some m := by decide
  have hlonger : ∀ q ∈ modifiersClass, ∀ m ∈ modifiersClass, m.isPrefixOf q = true →
      q.drop m.length = [] ∨ (q.drop m.length).head? = some 'd' := by decide
  rw [firstPrefix_append, hself m hm]
  rintro q hq t rfl hne ⟨y, rfl⟩
  have hdrop := hlonger _ hq m hm (List.isPrefixOf_iff_prefix.mpr (List.prefix_append m t))
  rw [List.drop_left] at hdrop
  obtain ⟨c, t, rfl⟩ := List.exists_cons_of_ne_nil hne
  exact hx (hdrop.resolve_left (List.cons_ne_nil c t))

theorem firstPrefix_modifier_keyword {k : List Char} (hk : k ∈ classKeywords) (x : List Char) :
    firstPrefix modifiersClass (k ++ x) = none := by
  have hself : ∀ k ∈ classKeywords, firstPrefix modifiersClass k = none := by decide
  have hlonger : ∀ q ∈ modifiersClass, ∀ k ∈ classKeywords, k.isPrefixOf q = false := by decide
  rw [firstPrefix_append, hself k hk]
  rintro q hq t rfl -
  have hprefix := hlonger _ hq k hk
  rw [List.isPrefixOf_iff_prefix.mpr (List.prefix_append k t)] at hprefix
  cases hprefix

theorem firstPrefix_keyword {k x : List Char} (hk : k ∈ classKeywords)
    (hx : ∀ t ∈ ["struct ".toList, "class ".toList], ¬t <+: x) :
    firstPrefix classKeywords (k ++ x) = some k := by
  have hself : ∀ k ∈ classKeywords, firstPrefix classKeywords k = some k := by decide
  have hlonger : ∀ q ∈ classKeywords, ∀ k ∈ classKeywords, k.isPrefixOf q = true →
      q.drop k.length = [] ∨ q.drop k.length ∈ ["struct ".toList, "class ".toList] := by decide
  rw [firstPrefix_append, hself k hk]
  rintro q hq t rfl hne
  have hdrop := hlonger _ hq k hk (List.isPrefixOf_iff_prefix.mpr (List.prefix_append k t))
  rw [List.drop_left] at hdrop
  exact hx t (hdrop.resolve_left hne)

end Words

section Line

theorem declarationLine_append {p : List Char} (hp : StartsSolid p) (hnewline : '\n' ∉ p)
    (hbrace : '{' ∉ p) {c : Char} (hc : isWhiteSpace c = false) (hopen : c ≠ '{')
    (s : List Char) :
    declarationLine (p ++ c :: s) = p ++ declarationLine (c :: s) := by
  obtain ⟨l, ls, hline, hlines⟩ := lines_append hnewline hc s
  have hkeep : ∀ d ∈ p, decide (d ≠ '{') = true := fun d hd =>
    decide_eq_true fun heq => hbrace (heq ▸ hd)
  have hfirst : (c :: l).takeWhile (· ≠ '{') = c :: l.takeWhile (· ≠ '{') :=
    List.takeWhile_cons_of_pos (decide_eq_true hopen)
  rw [declarationLine, declarationLine, hline, hlines, List.headD_cons, List.headD_cons,
    List.takeWhile_append_of_pos hkeep, hfirst]
  exact trim_append_solid hp hc _

/-- The line of a declaration is the beginning of a text that starts solid. -/
theorem declarationLine_prefix {c : Char} (hc : isWhiteSpace c = false) (hopen : c ≠ '{')
    (s : List Char) : ∃ l, declarationLine (c :: s) = c :: l ∧ c :: l <+: c :: s := by
  obtain ⟨l, ls, hline, -⟩ := lines_append List.not_mem_nil hc s
  have hfirst : (c :: l).takeWhile (· ≠ '{') = c :: l.takeWhile (· ≠ '{') :=
    List.takeWhile_cons_of_pos (decide_eq_true hopen)
  obtain ⟨rest, htrim⟩ := trim_cons hc (l.takeWhile (· ≠ '{'))
  refine ⟨rest, ?_, ?_⟩
  · rw [declarationLine, hline, List.headD_cons, hfirst, htrim]
  · have htext : c :: l <+: c :: s := prefix_of_linesFrom hline
    have hcut : c :: rest <+: (c :: l).takeWhile (· ≠ '{') := by
      rw [hfirst, ← htrim]
      exact trim_prefix hc _
    exact (hcut.trans (List.takeWhile_prefix _)).trans htext

end Line


namespace ClassDeclaration

variable (d : ClassDeclaration)

/-- What stands behind the name on its line, up to the first brace. -/
def tail : List Char := (declarationLine (d.name ++ d.rest)).drop d.name.length

/-- Bracketed attributes, listed modifiers and a listed keyword that no second one follows. -/
structure WellSpelled : Prop where
  attributes : ∀ part ∈ d.attributes, BracketGroup part
  modifiers : ∀ part ∈ d.modifiers, Listed modifiersClass part
  keyword : Listed classKeywords d.keyword
  single : ∀ t ∈ ["struct ".toList, "class ".toList], ¬t <+: d.name ++ d.rest

variable {d}

theorem declarationLine_name : declarationLine (d.name ++ d.rest) = d.name ++ d.tail ∧
    d.name ++ d.tail <+: d.name ++ d.rest := by
  obtain ⟨hne, hplain⟩ := d.identifier
  have hparts : ∀ c ∈ d.name, isWhiteSpace c = false ∧ c ≠ '{' := fun c hc =>
    ⟨(isPlain_iff.mp (hplain c hc)).1, (isPlain_iff.mp (hplain c hc)).2.2.1⟩
  -- Up to its last character the name is put in front of a line that starts with that one.
  obtain ⟨init, c, hname⟩ : ∃ init c, d.name = init ++ [c] :=
    ⟨d.name.dropLast, d.name.getLast hne, (List.dropLast_append_getLast hne).symm⟩
  have hinit : ∀ e ∈ init, isWhiteSpace e = false ∧ e ≠ '{' := fun e he =>
    hparts e (by rw [hname]; exact List.mem_append_left _ he)
  have hc := hparts c (by rw [hname]; exact List.mem_append_right _ (List.mem_singleton.mpr rfl))
  have hsolid : StartsSolid init := fun e he => (hinit e (List.mem_of_head? he)).1
  have hnewline : '\n' ∉ init := fun hmem => absurd (hinit _ hmem).1 (by decide)
  have hbrace : '{' ∉ init := fun hmem => (hinit _ hmem).2 rfl
  obtain ⟨l, hline, hprefix⟩ := declarationLine_prefix hc.1 hc.2 d.rest
  have htext : d.name ++ d.rest = init ++ c :: d.rest := by
    rw [hname, List.append_assoc, List.singleton_append]
  have hwhole : declarationLine (d.name ++ d.rest) = d.name ++ l := by
    rw [htext, declarationLine_append hsolid hnewline hbrace hc.1 hc.2, hline, hname,
      List.append_assoc, List.singleton_append]
  have htail : d.tail = l := by rw [tail, hwhole, List.drop_left]
  refine ⟨by rw [hwhole, htail], ?_⟩
  rw [htail, htext, hname, List.append_assoc, List.singleton_append]
  exact (List.prefix_append_right_inj init).mpr hprefix

theorem spaced_cons (part : List Char × List Char) (parts : List (List Char × List Char))
    (s : List Char) : spaced (part :: parts) ++ s = part.1 ++ (part.2 ++ (spaced parts ++ s)) := by
  rw [spaced, List.flatMap_cons, List.append_assoc, List.append_assoc]
  rfl

/-- Listed modifiers in front of a text are a run. -/
theorem modifierRun_listed {modifiers : List (List Char × List Char)}
    (h : ∀ part ∈ modifiers, Listed modifiersClass part) {s : List Char} (hs : BeginsListed s)
    (hnone : firstPrefix modifiersClass s = none) :
    BeginsListed (spaced modifiers ++ s) ∧ ModifierRun (spaced modifiers ++ s) s := by
  induction modifiers with
  | nil => exact ⟨hs, .nil hnone⟩
  | cons part modifiers ih =>
      obtain ⟨⟨hmem, gap, hgap, hblank, -⟩, hrest⟩ := List.forall_mem_cons.mp h
      obtain ⟨hbegins, hrun⟩ := ih hrest
      have hparts : spaced (part :: modifiers) ++ s =
          (part.1 ++ [' ']) ++ (gap ++ (spaced modifiers ++ s)) := by
        rw [spaced_cons, hgap, List.append_assoc]
        rfl
      have hnext : (gap ++ (spaced modifiers ++ s)).head? ≠ some 'd' := by
        obtain ⟨c, hhead, -, -, hd⟩ := hbegins
        cases gap with
        | nil =>
            rw [List.nil_append, hhead]
            exact fun heq => hd (Option.some.inj heq)
        | cons e gap =>
            intro heq
            have he := hblank e List.mem_cons_self
            rw [List.cons_append, List.head?_cons, Option.some.injEq] at heq
            rw [heq] at he
            exact absurd he (by decide)
      rw [hparts]
      exact ⟨beginsListed_append (List.mem_append_left _ hmem) _,
        .cons (firstPrefix_modifier hmem hnext) hblank hbegins.startsSolid hrun⟩

theorem startsSolid_spaced {parts : List (List Char × List Char)}
    (h : ∀ part ∈ parts, Listed (modifiersClass ++ classKeywords) part) :
    StartsSolid (spaced parts) := by
  cases parts with
  | nil =>
      intro c hc
      cases hc
  | cons part parts =>
      obtain ⟨hword, gap, hgap, -, -⟩ := h part List.mem_cons_self
      have hsplit : spaced (part :: parts) = (part.1 ++ [' ']) ++ (gap ++ spaced parts) := by
        rw [← List.append_nil (spaced (part :: parts)), spaced_cons, hgap, List.append_nil,
          List.append_assoc]
        rfl
      rw [hsplit]
      exact (beginsListed_append hword _).startsSolid

/-- The text in front of the name is on its line. -/
theorem no_end_of_spaced {parts : List (List Char × List Char)}
    (h : ∀ part ∈ parts, Listed (modifiersClass ++ classKeywords) part) :
    '\n' ∉ spaced parts ∧ '{' ∉ spaced parts := by
  have hpart : ∀ part ∈ parts, '\n' ∉ part.1 ++ part.2 ∧ '{' ∉ part.1 ++ part.2 := by
    intro part hmem
    obtain ⟨hword, gap, hgap, hblank, hnewline⟩ := h part hmem
    obtain ⟨hnewline', hbrace⟩ := no_end_of_listed _ hword
    have hsplit : part.1 ++ part.2 = (part.1 ++ [' ']) ++ gap := by
      rw [hgap, List.append_assoc]
      rfl
    have hbrace' : '{' ∉ gap := fun hc => absurd (hblank _ hc) (by decide)
    rw [hsplit]
    exact ⟨fun hc => (List.mem_append.mp hc).elim hnewline' hnewline,
      fun hc => (List.mem_append.mp hc).elim hbrace hbrace'⟩
  constructor
  · intro hc
    obtain ⟨part, hmem, hc⟩ := List.mem_flatMap.mp hc
    exact (hpart part hmem).1 hc
  · intro hc
    obtain ⟨part, hmem, hc⟩ := List.mem_flatMap.mp hc
    exact (hpart part hmem).2 hc

theorem declarationLine_header (h : d.WellSpelled) : declarationLine d.header =
    spaced d.modifiers ++ (spaced [d.keyword] ++ (d.name ++ d.tail)) := by
  obtain ⟨c, name, hname⟩ := List.exists_cons_of_ne_nil d.identifier.1
  have hplain := isPlain_iff.mp (d.identifier.2 c (hname ▸ List.mem_cons_self))
  have hparts : ∀ part ∈ d.modifiers ++ [d.keyword],
      Listed (modifiersClass ++ classKeywords) part := by
    intro part hmem
    obtain hmem | hmem := List.mem_append.mp hmem
    · exact ⟨List.mem_append_left _ (h.modifiers part hmem).1, (h.modifiers part hmem).2⟩
    · obtain rfl := List.mem_singleton.mp hmem
      exact ⟨List.mem_append_right _ h.keyword.1, h.keyword.2⟩
  obtain ⟨hnewline, hbrace⟩ := no_end_of_spaced hparts
  have hspaced : ∀ s, spaced d.modifiers ++ (spaced [d.keyword] ++ s) =
      spaced (d.modifiers ++ [d.keyword]) ++ s := by
    intro s
    rw [spaced, spaced, spaced, List.flatMap_append, List.append_assoc]
  have hsolid := startsSolid_spaced hparts
  rw [header, hspaced, hspaced, hname, List.cons_append,
    declarationLine_append hsolid hnewline hbrace hplain.1 hplain.2.2.1, ← List.cons_append, ← hname,
    declarationLine_name.1]

/-- The name of a declaration whose parts are listed is extracted exactly if it ends where it
should. -/
theorem extracts_iff_nameEnds (alphabet : Alphabet) (h : d.WellSpelled) :
    d.Extracts alphabet ↔ NameEnds d.name d.tail := by
  obtain ⟨hword, gap, hgap, hblank, hnewline⟩ := h.keyword
  obtain ⟨hname, hprefix⟩ := @declarationLine_name d
  have hsolid := startsSolid_name d.identifier
  have hkeyword : ∀ s, spaced [d.keyword] ++ s = (d.keyword.1 ++ [' ']) ++ (gap ++ s) := by
    intro s
    rw [spaced_cons, hgap, List.append_assoc]
    rfl
  have hrun : ∀ s, BeginsListed (spaced d.modifiers ++ (spaced [d.keyword] ++ s)) ∧
      ModifierRun (spaced d.modifiers ++ (spaced [d.keyword] ++ s)) (spaced [d.keyword] ++ s) := by
    intro s
    rw [hkeyword]
    exact modifierRun_listed h.modifiers (beginsListed_append (List.mem_append_right _ hword) _)
      (firstPrefix_modifier_keyword hword _)
  have hthen : KeywordThen (spaced [d.keyword] ++ (d.name ++ d.tail)) (d.name ++ d.tail) := by
    rw [hkeyword]
    refine .keyword (firstPrefix_keyword hword fun t ht hlonger => ?_) hblank (hsolid _)
    cases gap with
    | nil => exact h.single t ht (hlonger.trans hprefix)
    | cons e gap =>
        have he := hblank e List.mem_cons_self
        obtain ⟨y, hy⟩ := hlonger
        obtain rfl | ht := List.mem_cons.mp ht
        · rw [← (List.cons.inj hy).1] at he
          exact absurd he (by decide)
        · obtain rfl := List.mem_singleton.mp ht
          rw [← (List.cons.inj hy).1] at he
          exact absurd he (by decide)
  obtain ⟨hbegins, hrunTail⟩ := hrun (d.name ++ d.tail)
  have hheader : stripCsharpAttributes alphabet d.text = d.header := by
    obtain ⟨c, hc, hcsolid, hbracket, -⟩ := (hrun (d.name ++ d.rest)).1
    refine stripCsharpAttributes_groups alphabet (hrun (d.name ++ d.rest)).1.startsSolid ?_
      h.attributes
    intro heq
    exact hbracket (Option.some.inj (hc.symm.trans heq))
  have hline := declarationLine_header h
  have hstart : StartsSolid (declarationLine d.header) := startsSolid_trim _
  have hend : EndsSolid (declarationLine d.header) := endsSolid_trim _
  unfold Extracts extractBareClassName
  rw [hheader, bareName_line_iff d.identifier hstart hend]
  rw [hline] at hstart hend ⊢
  exact headerReads_iff hstart hend hrunTail hthen

end ClassDeclaration

/-- A generic class with an attribute and two modifiers. -/
def genericClass : ClassDeclaration where
  attributes := [("[Serializable]".toList, ['\n'])]
  modifiers := [("public".toList, [' ']), ("sealed".toList, [' ', ' '])]
  keyword := ("class".toList, [' '])
  name := "Pool".toList
  rest := "<T> : Base".toList
  identifier := ⟨by decide, List.all_eq_true.mp (by decide)⟩

example : genericClass.Extracts plainAlphabet := by
  have hattributes : ∀ part ∈ genericClass.attributes, BracketGroup part := by
    intro part hmem
    obtain rfl := List.mem_singleton.mp hmem
    exact ⟨rfl, fun _ => rfl, List.cons_ne_nil _ _, List.forall_mem_singleton.mpr (by decide)⟩
  have hmodifiers : ∀ part ∈ genericClass.modifiers, Listed modifiersClass part :=
    List.forall_mem_cons.mpr ⟨⟨by decide, [], rfl, List.forall_mem_nil _, List.not_mem_nil⟩,
      List.forall_mem_singleton.mpr
        ⟨by decide, [' '], rfl, List.forall_mem_singleton.mpr (by decide), by decide⟩⟩
  have hkeyword : Listed classKeywords genericClass.keyword :=
    ⟨by decide, [], rfl, List.forall_mem_nil _, List.not_mem_nil⟩
  exact (ClassDeclaration.extracts_iff_nameEnds _ ⟨hattributes, hmodifiers, hkeyword, by decide⟩).mpr
    (.inl (List.all_eq_true.mp (by decide +kernel)))

end Compaction
end CleanCtx
