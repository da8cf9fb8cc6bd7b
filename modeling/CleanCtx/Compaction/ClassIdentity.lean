import CleanCtx.Compaction.ClassEnds

/-!
The names of class-like declarations. A declaration is its text in parts, as the
grammar of C#, Java or TypeScript orders them. Its name is what the extraction
returns exactly if the line it works on names it.
-/
namespace CleanCtx
namespace Compaction

section Reading

theorem ModifierRun.eq {s rest rest' : List Char} (h : ModifierRun s rest)
    (h' : ModifierRun s rest') : rest = rest' :=
  ((stripModifiersFrom_iff _ s le_rfl).mpr h).symm.trans
    ((stripModifiersFrom_iff _ s le_rfl).mpr h')

variable {line name : List Char}

/-- The steps behind the attributes return an identifier exactly if the line names it. -/
theorem bareName_line_iff (hname : IsIdentifier name) (hstart : StartsSolid line)
    (hend : EndsSolid line) :
    bareName (afterKeyword (stripModifiers line modifiersClass)) = name ↔
      HeaderReads line name := by
  have hrun : ModifierRun line (stripModifiers line modifiersClass) := by
    unfold stripModifiers
    rw [trim_of_solid hstart hend]
    exact (stripModifiersFrom_iff _ line le_rfl).mp rfl
  obtain ⟨hstart', hend'⟩ := hrun.solid hstart hend
  have hthen := (afterKeyword_iff hstart' hend').mp rfl
  obtain ⟨hstart'', hend''⟩ := hthen.solid hstart' hend'
  rw [bareName_eq_iff hname hstart'' hend'']
  constructor
  · rintro ⟨tail, htail, hends⟩
    exact ⟨_, tail, hrun, htail ▸ hthen, hends⟩
  · rintro ⟨header, tail, hrun', hthen', hends⟩
    refine ⟨tail, ?_, hends⟩
    rw [hrun.eq hrun'] at hstart' hend' ⊢
    exact (afterKeyword_iff hstart' hend').mpr hthen'

/-- A line that is read in parts names what stands behind them, if that ends where it should. -/
theorem headerReads_iff {header tail : List Char} (hstart : StartsSolid line)
    (hend : EndsSolid line) (hrun : ModifierRun line header)
    (hthen : KeywordThen header (name ++ tail)) :
    HeaderReads line name ↔ NameEnds name tail := by
  constructor
  · rintro ⟨header', tail', hrun', hthen', hends⟩
    obtain ⟨hstart', hend'⟩ := hrun.solid hstart hend
    rw [← hrun.eq hrun'] at hthen'
    have hsame : name ++ tail = name ++ tail' :=
      ((afterKeyword_iff hstart' hend').mpr hthen).symm.trans
        ((afterKeyword_iff hstart' hend').mpr hthen')
    exact List.append_cancel_left hsame ▸ hends
  · exact fun hends => ⟨header, tail, hrun, hthen, hends⟩

end Reading

/-- A class-like declaration. The attributes and the gaps may hold comments, and what stands behind
the name is type parameters, a parameter list, bases, constraints and the body. -/
structure ClassDeclaration where
  attributes : List (List Char × List Char)
  modifiers : List (List Char × List Char)
  keyword : List Char × List Char
  name : List Char
  rest : List Char
  identifier : IsIdentifier name

def spaced (parts : List (List Char × List Char)) : List Char := parts.flatMap fun p => p.1 ++ p.2

namespace ClassDeclaration

variable (d : ClassDeclaration)

def header : List Char := spaced d.modifiers ++ (spaced [d.keyword] ++ (d.name ++ d.rest))

def text : List Char := spaced d.attributes ++ d.header

/-- The name of the declaration is extracted from its text. -/
def Extracts (alphabet : Alphabet) : Prop := extractBareClassName alphabet d.text = d.name

/-- The extraction returns the name exactly if the line behind the attributes reads as one. -/
theorem extracts_iff (alphabet : Alphabet) : d.Extracts alphabet ↔
    HeaderReads (declarationLine (stripCsharpAttributes alphabet d.text)) d.name := by
  unfold Extracts extractBareClassName
  exact bareName_line_iff d.identifier (startsSolid_trim _) (endsSolid_trim _)

end ClassDeclaration

def plainAlphabet : Alphabet := .ofAscii

/-- `public class Foo:Base`, with no blanks around the colon. -/
def derivedClass : ClassDeclaration where
  attributes := []
  modifiers := [("public".toList, [' '])]
  keyword := ("class".toList, [' '])
  name := "Foo".toList
  rest := ":Base".toList
  identifier := ⟨by decide, List.all_eq_true.mp (by decide)⟩

/-- The base is taken for a part of the name. -/
theorem not_extracts_derivedClass : ¬ derivedClass.Extracts plainAlphabet := by
  unfold ClassDeclaration.Extracts
  decide +kernel

end Compaction
end CleanCtx
