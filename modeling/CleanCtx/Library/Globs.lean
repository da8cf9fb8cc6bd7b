import Mathlib.Data.List.Basic
import Mathlib.Data.List.Forall2

/-!
Patterns with wildcards over any alphabet: what it means that a pattern matches a text, why a
search may forget every star but the last, and the same meaning by blocks, where the literals of a
pattern are placed in the text and the wildcards between them need room.
-/
namespace CleanCtx

/-- What a pattern asks at one place. -/
inductive Glob (α : Type)
  | star
  | one
  | lit (a : α)
  deriving DecidableEq

namespace Glob

variable {α β : Type}

def Covers : Glob α → List α → Prop
  | star, _ => True
  | one, piece => piece.length = 1
  | lit a, piece => piece = [a]

def Matches (pattern : List (Glob α)) (text : List α) : Prop :=
  ∃ pieces, List.Forall₂ Covers pattern pieces ∧ pieces.flatten = text

variable {g : Glob α} {a : α} {pattern rest : List (Glob α)} {text : List α}

theorem matches_nil : Matches [] text ↔ text = [] := by
  constructor
  · rintro ⟨pieces, hall, rfl⟩
    cases hall
    rfl
  · rintro rfl
    exact ⟨[], .nil, rfl⟩

theorem matches_cons : Matches (g :: pattern) text ↔
    ∃ piece after, text = piece ++ after ∧ g.Covers piece ∧ Matches pattern after := by
  constructor
  · rintro ⟨pieces, hall, rfl⟩
    obtain ⟨piece, pieces, hpiece, hrest, rfl⟩ := List.forall₂_cons_left_iff.mp hall
    exact ⟨piece, pieces.flatten, rfl, hpiece, pieces, hrest, rfl⟩
  · rintro ⟨piece, after, rfl, hpiece, pieces, hrest, rfl⟩
    exact ⟨piece :: pieces, .cons hpiece hrest, rfl⟩

theorem matches_star : Matches (star :: pattern) text ↔
    ∃ before after, text = before ++ after ∧ Matches pattern after := by
  rw [matches_cons]
  simp [Covers]

theorem matches_star_iff : Matches (star :: pattern) text ↔
    Matches pattern text ∨ Matches (star :: pattern) text.tail := by
  rw [matches_star, matches_star]
  constructor
  · rintro ⟨before, after, rfl, h⟩
    cases before with
    | nil => exact .inl h
    | cons b before => exact .inr ⟨before, after, rfl, h⟩
  · rintro (h | ⟨before, after, htail, h⟩)
    · exact ⟨[], text, rfl, h⟩
    · cases text with
      | nil => exact ⟨before, after, htail, h⟩
      | cons b text => exact ⟨b :: before, after, congrArg (b :: ·) htail, h⟩

theorem matches_one : Matches (one :: pattern) (a :: text) ↔ Matches pattern text := by
  rw [matches_cons]
  constructor
  · rintro ⟨piece, after, heq, hpiece, h⟩
    obtain ⟨b, rfl⟩ := List.length_eq_one_iff.mp hpiece
    obtain ⟨-, rfl⟩ := List.cons.inj heq
    exact h
  · exact fun h => ⟨[a], text, rfl, rfl, h⟩

theorem matches_lit {b : α} : Matches (lit b :: pattern) (a :: text) ↔
    a = b ∧ Matches pattern text := by
  rw [matches_cons]
  constructor
  · rintro ⟨piece, after, heq, rfl, h⟩
    obtain ⟨rfl, rfl⟩ := List.cons.inj heq
    exact ⟨rfl, h⟩
  · rintro ⟨rfl, h⟩
    exact ⟨[a], text, rfl, rfl, h⟩

/-- Without stars, a pattern takes as many elements as it has places. -/
theorem matches_append_of_starless (h : star ∉ pattern) (hmatch : Matches (pattern ++ rest) text) :
    ∃ before after, text = before ++ after ∧ before.length = pattern.length ∧
      Matches rest after := by
  induction pattern generalizing text with
  | nil => exact ⟨[], text, rfl, rfl, hmatch⟩
  | cons g pattern ih =>
      obtain ⟨piece, remaining, rfl, hpiece, hmatch⟩ := matches_cons.mp hmatch
      obtain ⟨before, after, rfl, hlength, hafter⟩ :=
        ih (fun hmem => h (List.mem_cons_of_mem g hmem)) hmatch
      have hone : piece.length = 1 := by
        cases g with
        | star => exact absurd List.mem_cons_self h
        | one => exact hpiece
        | lit b => exact congrArg List.length hpiece
      refine ⟨piece ++ before, after, by rw [List.append_assoc], ?_, hafter⟩
      rw [List.length_append, hone, hlength, List.length_cons, Nat.add_comm]

/-- What the last star could still take, a later star can take as well: between the two the pattern
takes a fixed number of elements, so the later star starts no further on. -/
theorem matches_of_later_star {segment : List (Glob α)} {passed : List α}
    (hsegment : star ∉ segment) (hlength : passed.length = segment.length)
    (h : Matches (star :: (segment ++ star :: rest)) (passed ++ text).tail) :
    Matches (star :: rest) text := by
  obtain ⟨skipped, found, heq, hmatch⟩ := matches_star.mp h
  obtain ⟨before, after, rfl, hbefore, hafter⟩ := matches_append_of_starless hsegment hmatch
  obtain ⟨taken, remaining, rfl, hremaining⟩ := matches_star.mp hafter
  have hsuffix : remaining <:+ passed ++ text := by
    have htail : remaining <:+ (passed ++ text).tail := by
      rw [heq, ← List.append_assoc, ← List.append_assoc]
      exact List.suffix_append _ remaining
    exact htail.trans (List.tail_suffix _)
  have hshort : remaining.length ≤ text.length := by
    have hlengths := congrArg List.length heq
    simp only [List.length_tail, List.length_append] at hlengths
    omega
  obtain ⟨front, hfront⟩ :=
    List.suffix_of_suffix_length_le hsuffix (List.suffix_append passed text) hshort
  exact matches_star.mpr ⟨front, remaining, hfront.symm, hremaining⟩

/-- At the end of the text there is nothing left for a last star to take. -/
theorem not_matches_of_passed {segment : List (Glob α)} {passed : List α}
    (hsegment : star ∉ segment) (hlength : passed.length = segment.length) (hne : passed ≠ []) :
    ¬ Matches (star :: (segment ++ rest)) passed.tail := by
  intro h
  obtain ⟨skipped, found, heq, hmatch⟩ := matches_star.mp h
  obtain ⟨before, after, rfl, hbefore, -⟩ := matches_append_of_starless hsegment hmatch
  have hlengths := congrArg List.length heq
  have hpos := List.length_pos_iff.mpr hne
  simp only [List.length_tail, List.length_append] at hlengths
  omega

theorem matches_nil_right : Matches pattern [] ↔ ∀ g ∈ pattern, g = star := by
  induction pattern with
  | nil => simp [matches_nil]
  | cons g pattern ih =>
      rw [List.forall_mem_cons, ← ih, matches_cons]
      constructor
      · rintro ⟨piece, after, heq, hpiece, h⟩
        obtain ⟨rfl, rfl⟩ := List.append_eq_nil_iff.mp heq.symm
        refine ⟨?_, h⟩
        cases g with
        | star => rfl
        | one => cases hpiece
        | lit b => cases hpiece
      · rintro ⟨rfl, h⟩
        exact ⟨[], [], rfl, trivial, h⟩

/-! A search that remembers the last star: what is left of the pattern and of the text, and with a
star the pattern behind it and the text from where it was met. -/

structure Search (α : Type) where
  pattern : List (Glob α)
  text : List α
  lastStar : Option (List (Glob α) × List α)

namespace Search

/-- What is left matches, or the last star takes at least one element more. -/
def Accepts (s : Search α) : Prop :=
  Matches s.pattern s.text ∨
    ∃ behind since, s.lastStar = some (behind, since) ∧ Matches (star :: behind) since.tail

/-- Since the last star, as many places as elements have passed, and no star. -/
def Sound (s : Search α) : Prop :=
  ∀ behind since, s.lastStar = some (behind, since) →
    ∃ segment passed, behind = segment ++ s.pattern ∧ since = passed ++ s.text ∧
      star ∉ segment ∧ passed.length = segment.length

variable {lastStar : Option (List (Glob α) × List α)} {behind : List (Glob α)} {since : List α}

theorem accepts_star (h : Sound ⟨star :: rest, text, lastStar⟩) :
    Accepts ⟨star :: rest, text, lastStar⟩ ↔ Accepts ⟨rest, text, some (rest, text)⟩ := by
  have hnew : Accepts ⟨rest, text, some (rest, text)⟩ ↔ Matches (star :: rest) text := by
    rw [matches_star_iff]
    constructor
    · rintro (hmatch | ⟨behind, since, heq, hmatch⟩)
      · exact .inl hmatch
      · cases heq
        exact .inr hmatch
    · rintro (hmatch | hmatch)
      · exact .inl hmatch
      · exact .inr ⟨rest, text, rfl, hmatch⟩
  rw [hnew]
  constructor
  · rintro (hmatch | ⟨behind, since, hstar, hmatch⟩)
    · exact hmatch
    · obtain ⟨segment, passed, rfl, rfl, hsegment, hlength⟩ := h behind since hstar
      exact matches_of_later_star hsegment hlength hmatch
  · exact .inl

theorem sound_star : Sound ⟨rest, text, some (rest, text)⟩ := by
  intro behind since heq
  cases heq
  exact ⟨[], [], rfl, rfl, List.not_mem_nil, rfl⟩

theorem accepts_advance (h : ∀ after, Matches (g :: pattern) (a :: after) ↔ Matches pattern after) :
    Accepts ⟨g :: pattern, a :: text, lastStar⟩ ↔ Accepts ⟨pattern, text, lastStar⟩ :=
  or_congr_left (h text)

theorem sound_advance (hg : g ≠ star) (h : Sound ⟨g :: pattern, a :: text, lastStar⟩) :
    Sound ⟨pattern, text, lastStar⟩ := by
  intro behind since heq
  obtain ⟨segment, passed, rfl, rfl, hsegment, hlength⟩ := h behind since heq
  refine ⟨segment ++ [g], passed ++ [a], by simp, by simp, ?_, by simp [hlength]⟩
  simp only [List.mem_append, List.mem_singleton, not_or]
  exact ⟨hsegment, hg.symm⟩

/-- Where nothing matches, the last star takes one element more. -/
theorem accepts_retry (h : ¬ Matches pattern text) :
    Accepts ⟨pattern, text, some (behind, since)⟩ ↔
      Accepts ⟨behind, since.tail, some (behind, since.tail)⟩ := by
  constructor
  · rintro (hmatch | ⟨behind, since, heq, hmatch⟩)
    · exact absurd hmatch h
    · cases heq
      rcases matches_star_iff.mp hmatch with hmatch | hmatch
      · exact .inl hmatch
      · exact .inr ⟨behind, since.tail, rfl, hmatch⟩
  · rintro (hmatch | ⟨behind', since', heq, hmatch⟩)
    · exact .inr ⟨behind, since, rfl, matches_star_iff.mpr (.inl hmatch)⟩
    · cases heq
      exact .inr ⟨behind, since, rfl, matches_star_iff.mpr (.inr hmatch)⟩

theorem accepts_stuck (h : ¬ Matches pattern text) : ¬ Accepts ⟨pattern, text, none⟩ := by
  rintro (hmatch | ⟨behind, since, heq, -⟩)
  · exact h hmatch
  · cases heq

theorem accepts_end (h : Sound ⟨pattern, [], lastStar⟩) :
    Accepts ⟨pattern, [], lastStar⟩ ↔ ∀ g ∈ pattern, g = star := by
  rw [← matches_nil_right]
  constructor
  · rintro (hmatch | ⟨behind, since, hstar, hmatch⟩)
    · exact hmatch
    · obtain ⟨segment, passed, rfl, rfl, hsegment, hlength⟩ := h behind since hstar
      by_cases hne : passed = []
      · subst hne
        obtain rfl := List.length_eq_zero_iff.mp hlength.symm
        obtain ⟨before, after, heq, hmatch⟩ := matches_star.mp hmatch
        obtain ⟨-, rfl⟩ := List.append_eq_nil_iff.mp heq.symm
        exact hmatch
      · rw [List.append_nil] at hmatch
        exact absurd hmatch (not_matches_of_passed hsegment hlength hne)
  · exact .inl

end Search

end Glob
end CleanCtx
