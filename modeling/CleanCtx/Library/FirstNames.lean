import Mathlib.Data.Option.Basic

/-!
A memo of first names. Things have names, several at a time and others in time; the memo
keeps for a thing the name it was first asked for under, and answers with that name ever
after. Things without an entry answer with the name they are asked for under. Two things
that have names now collide if the memo can answer for both with one name.
-/
namespace CleanCtx
namespace FirstNames

variable {ι ν : Type}

def Live (denotes : ν → Option ι) (i : ι) : Prop := ∃ name, denotes name = some i

/-- The remembered name of the one is remembered for the other too, or names it now and nothing is
remembered for it. -/
def Collide (denotes : ν → Option ι) (owned : ι → Option ν) (i j : ι) : Prop :=
  ∃ name, owned i = some name ∧ (owned j = some name ∨ (owned j = none ∧ denotes name = some j))

/-- No two things collide. -/
def Apart (denotes : ν → Option ι) (owned : ι → Option ν) : Prop :=
  ∀ i j, Live denotes i → Live denotes j → i ≠ j → ¬Collide denotes owned i j

def Clashes (denotes : ν → Option ι) (owned : ι → Option ν) (i : ι) : Prop :=
  ∃ j, Live denotes j ∧ i ≠ j ∧ (Collide denotes owned i j ∨ Collide denotes owned j i)

section

variable {denotes denotes' : ν → Option ι} {owned owned' : ι → Option ν}

/-- The answers for different things differ exactly if no two of them collide. A name is asked for
in its normal form, and remembered in it. -/
theorem answers_differ_iff (normal : ν → ν) (hdenotes : ∀ name, denotes (normal name) = denotes name)
    (howned : ∀ i name, owned i = some name → normal name = name) :
    (∀ n m i j, denotes n = some i → denotes m = some j → i ≠ j →
      (owned i).getD (normal n) ≠ (owned j).getD (normal m)) ↔ Apart denotes owned := by
  constructor
  · rintro h i j ⟨n, hn⟩ ⟨m, hm⟩ hne ⟨name, hi, hj⟩
    rcases hj with hj | ⟨hj, hname⟩
    · exact h n m i j hn hm hne (by rw [hi, hj]; rfl)
    · exact h n name i j hn hname hne (by rw [hi, hj, Option.getD_none, howned i name hi]; rfl)
  · intro h n m i j hn hm hne heq
    cases hi : owned i with
    | some a =>
        refine h i j ⟨n, hn⟩ ⟨m, hm⟩ hne ⟨a, hi, ?_⟩
        cases hj : owned j with
        | some b =>
            rw [hi, hj] at heq
            exact Or.inl (congrArg some heq.symm)
        | none =>
            rw [hi, hj] at heq
            exact Or.inr ⟨rfl, by rw [show a = normal m from heq, hdenotes, hm]⟩
    | none =>
        cases hj : owned j with
        | some b =>
            rw [hi, hj] at heq
            refine h j i ⟨m, hm⟩ ⟨n, hn⟩ (Ne.symm hne) ⟨b, hj, Or.inr ⟨hi, ?_⟩⟩
            rw [show b = normal n from heq.symm, hdenotes, hn]
        | none =>
            rw [hi, hj] at heq
            have hsame : normal n = normal m := heq
            have hboth : some i = some j := by rw [← hn, ← hm, ← hdenotes n, hsame, hdenotes]
            exact hne (Option.some.inj hboth)

/-- Remembering the name a thing has now makes no two things collide. -/
theorem Apart.remember (h : Apart denotes owned) {i : ι} {name : ν} (hnone : owned i = none)
    (hname : denotes name = some i) (hi : owned' i = some name)
    (hother : ∀ j, j ≠ i → owned' j = owned j) : Apart denotes owned' := by
  rintro a b ha hb hne ⟨c, hac, hbc⟩
  by_cases hai : a = i
  · subst hai
    cases hac.symm.trans hi
    have hba : b ≠ a := Ne.symm hne
    rw [hother b hba] at hbc
    rcases hbc with hbc | ⟨-, hbc⟩
    · exact h b a hb ha hba ⟨_, hbc, Or.inr ⟨hnone, hname⟩⟩
    · exact hne (Option.some.inj (hname.symm.trans hbc))
  · rw [hother a hai] at hac
    by_cases hbi : b = i
    · subst hbi
      rw [hi] at hbc
      rcases hbc with hbc | ⟨hbc, -⟩
      · cases hbc
        exact h a b ha hb hne ⟨_, hac, Or.inr ⟨hnone, hname⟩⟩
      · cases hbc
    · rw [hother b hbi] at hbc
      exact h a b ha hb hne ⟨c, hac, hbc⟩

theorem Apart.resolve (h : Apart denotes owned) {i : ι} (hi : owned' i = owned i ∨
      (owned i = none ∧ ∃ name, denotes name = some i ∧ owned' i = some name))
    (hother : ∀ j, j ≠ i → owned' j = owned j) : Apart denotes owned' := by
  rcases hi with hi | ⟨hnone, name, hname, hi⟩
  · have hsame : owned' = owned := funext fun j => by
      by_cases hj : j = i
      · rw [hj, hi]
      · exact hother j hj
    rw [hsame]
    exact h
  · exact h.remember hnone hname hi hother

theorem Apart.unname (h : Apart denotes owned)
    (hless : ∀ name i, denotes' name = some i → denotes name = some i) : Apart denotes' owned := by
  rintro i j ⟨n, hn⟩ ⟨m, hm⟩ hne ⟨name, hi, hj⟩
  refine h i j ⟨n, hless n i hn⟩ ⟨m, hless m j hm⟩ hne ⟨name, hi, ?_⟩
  exact hj.imp_right fun hj => ⟨hj.1, hless name j hj.2⟩

/-- When one thing gets a name, what has to be looked at is that thing. -/
theorem Apart.name_iff (h : Apart denotes owned) {i : ι} (hlive : Live denotes' i)
    (hother : ∀ name j, j ≠ i → denotes' name = some j → denotes name = some j) :
    Apart denotes' owned ↔ ¬Clashes denotes' owned i := by
  constructor
  · rintro hapart ⟨j, hj, hne, hcollide | hcollide⟩
    · exact hapart i j hlive hj hne hcollide
    · exact hapart j i hj hlive (Ne.symm hne) hcollide
  · rintro hclash a b ha hb hne ⟨name, hname, hcollide⟩
    by_cases hai : a = i
    · subst hai
      exact hclash ⟨b, hb, hne, Or.inl ⟨name, hname, hcollide⟩⟩
    · by_cases hbi : b = i
      · subst hbi
        exact hclash ⟨a, ha, Ne.symm hne, Or.inr ⟨name, hname, hcollide⟩⟩
      · obtain ⟨n, hn⟩ := ha
        obtain ⟨m, hm⟩ := hb
        refine h a b ⟨n, hother n a hai hn⟩ ⟨m, hother m b hbi hm⟩ hne ⟨name, hname, ?_⟩
        exact hcollide.imp_right fun hj => ⟨hj.1, hother name b hbi hj.2⟩

/-- A thing without an entry clashes only through a name that is remembered for another one. -/
theorem not_clashes_of_new {i : ι} (hnone : owned i = none)
    (hnames : ∀ j name, owned j = some name → denotes name ≠ some i) : ¬Clashes denotes owned i := by
  rintro ⟨j, -, -, ⟨name, hi, -⟩ | ⟨name, hj, hi⟩⟩
  · rw [hnone] at hi
    cases hi
  · rcases hi with hi | ⟨-, hi⟩
    · rw [hnone] at hi
      cases hi
    · exact hnames j name hj hi

end

end FirstNames
end CleanCtx
